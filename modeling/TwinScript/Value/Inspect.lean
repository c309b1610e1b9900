import TwinScript.Value.Basic

/-!
# Inspecting values

A second text of a value, for someone who wants to see its kind beside its content: strings are
quoted, and a function shows the names of its parameters.
-/

namespace TwinScript

/-- The constructor name of a function of the language. -/
def Builtin.inspect : Builtin → String
  | println => "Println"

/-- The kind and the content of a value. -/
def Val.inspect : Val → String
  | int n => String.join ["Int(", toString n.toInt, ")"]
  | str s => String.join ["Str(", quoted s, ")"]
  | bool b => String.join ["Bool(", boolText b, ")"]
  | closure c =>
    String.join
      ["Func(Func \x7b name: ", quoted c.name, ", params: [",
       ", ".intercalate (c.params.map quoted), "], .. \x7d)"]
  | builtin b => String.join ["Native(", b.inspect, ")"]
  | nothing => "None"

end TwinScript
