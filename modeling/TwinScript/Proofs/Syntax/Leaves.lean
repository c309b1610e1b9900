import TwinScript.Proofs.Syntax.Reading
import Mathlib.Data.List.Forall2

/-!
# The tokens that trees keep

Trees keep all tokens but parentheses and semicolons: their leaves, read from left to right, are the
other tokens in their order. The leaves that are operators, literals and names of variables keep the
positions of their tokens as well, and so does the keyword of a loop. Only the position of a call is
not that of a token, but that of its callee.

* `Stmt.allLeaves`: the leaves of a program.
* `Stmt.AllCallsPlaced`: every call is where its callee is.
* `ReadFrom`: what was read has some tokens as its leaves, and has its calls placed.
-/

namespace TwinScript

/-! ## Leaves -/

/-- What a tree keeps of a token: its kind, and its position if errors may name that. -/
structure Leaf where
  /-- What the token stands for; `none` for a part of the tree that no token writes. -/
  kind? : Option Token.Kind
  /-- Where the token begins. -/
  pos? : Option Position

/-- The leaf is what a tree keeps of the token. -/
structure Leaf.Of (leaf : Leaf) (token : Token) : Prop where
  kind_eq : leaf.kind? = some token.kind
  pos_eq : ∀ pos, leaf.pos? = some pos → pos = token.pos

/-- Whether trees keep tokens of that kind. -/
def Token.Kind.isKept : Token.Kind → Bool
  | .symbol .leftParen => false
  | .symbol .rightParen => false
  | .symbol .semicolon => false
  | _ => true

/-- The kind of the token that writes a literal. No token writes a function. -/
def Literal.kind? : Literal → Option Token.Kind
  | .int n => some (.integer n)
  | .str s => some (.string s)
  | .bool true => some (.keyword .trueWord)
  | .bool false => some (.keyword .falseWord)
  | .function _ => none
  | .builtin .println => some (.keyword .printlnWord)
  | .nothing => some (.keyword .noneWord)

/-- A literal is read off the one kind of token that writes it. -/
theorem Literal.ofKind?_eq_some {kind : Token.Kind} {value : Literal} :
    Literal.ofKind? kind = some value ↔ value.kind? = some kind := by
  constructor
  · intro h
    unfold ofKind? at h
    split at h <;> cases h <;> rfl
  · intro h
    rcases value with _ | _ | (_ | _) | _ | _ | _ <;> cases h <;> rfl

section

variable {kind : Token.Kind} {value : Literal}

theorem Literal.kind_ne_symbol (h : value.kind? = some kind) (s : Symbol) : kind ≠ .symbol s := by
  rcases value with _ | _ | (_ | _) | _ | _ | _ <;> cases h <;> exact nofun

theorem Literal.isKept_kind (h : value.kind? = some kind) : kind.isKept = true := by
  rcases value with _ | _ | (_ | _) | _ | _ | _ <;> cases h <;> rfl

end

/-- A token whose position the tree does not keep. -/
def Leaf.unplaced (kind : Token.Kind) : Leaf := ⟨some kind, none⟩

/-- A token whose position the tree keeps. -/
def Leaf.placed (kind : Token.Kind) (pos : Position) : Leaf := ⟨some kind, some pos⟩

/-- The leaves of a list, with commas between its items. -/
def Leaf.withCommas : List (List Leaf) → List Leaf
  | [] => []
  | first :: more => first ++ more.flatMap fun next => [.unplaced (.symbol .comma)] ++ next

mutual

/-- The tokens of an expression, from left to right. -/
def Expr.leaves : Expr → List Leaf
  | .literal pos value => [⟨value.kind?, some pos⟩]
  | .var pos name => [.placed (.identifier name) pos]
  | .unary pos op operand => [.placed op pos] ++ operand.leaves
  | .binary pos op left right => left.leaves ++ [.placed op pos] ++ right.leaves
  | .call _ callee args => callee.leaves ++ Leaf.withCommas (Expr.eachLeaves args)

/-- The tokens of each of the expressions. -/
def Expr.eachLeaves : List Expr → List (List Leaf)
  | [] => []
  | e :: rest => e.leaves :: Expr.eachLeaves rest

end

/-- The tokens of an expression, if there is one. -/
def Expr.leaves? : Option Expr → List Leaf
  | none => []
  | some e => e.leaves

mutual

/-- The tokens of a statement, from left to right. -/
def Stmt.leaves : Stmt → List Leaf
  | .expr e => e.leaves
  | .assign name value =>
    [.unplaced (.identifier name)] ++ [.unplaced (.symbol .equal)] ++ value.leaves
  | .block body =>
    [.unplaced (.symbol .leftBrace)] ++ (Stmt.allLeaves body ++ [.unplaced (.symbol .rightBrace)])
  | .ifThen condition body =>
    [.unplaced (.keyword .ifWord)] ++ condition.leaves ++ body.leaves
  | .forLoop pos condition body =>
    [.placed (.keyword .forWord) pos] ++ Expr.leaves? condition ++ body.leaves
  | .breakLoop => [.unplaced (.keyword .breakWord)]
  | .continueLoop => [.unplaced (.keyword .continueWord)]
  | .returnValue value => [.unplaced (.keyword .returnWord)] ++ Expr.leaves? value
  | .function name params body =>
    [.unplaced (.keyword .fnWord)] ++ [.unplaced (.identifier name)] ++
      Leaf.withCommas (params.map fun param => [.unplaced (.identifier param)]) ++
      [.unplaced (.symbol .leftBrace)] ++
      (Stmt.allLeaves body ++ [.unplaced (.symbol .rightBrace)])

/-- The tokens of statements in a row. -/
def Stmt.allLeaves : List Stmt → List Leaf
  | [] => []
  | s :: rest => s.leaves ++ Stmt.allLeaves rest

end

mutual

/-- Every call in the expression has the position of its callee. -/
def Expr.CallsPlaced : Expr → Prop
  | .literal _ _ => True
  | .var _ _ => True
  | .unary _ _ operand => operand.CallsPlaced
  | .binary _ _ left right => left.CallsPlaced ∧ right.CallsPlaced
  | .call pos callee args => pos = callee.pos ∧ callee.CallsPlaced ∧ Expr.AllCallsPlaced args

/-- Every call in the expressions has the position of its callee. -/
def Expr.AllCallsPlaced : List Expr → Prop
  | [] => True
  | e :: rest => e.CallsPlaced ∧ Expr.AllCallsPlaced rest

end

mutual

/-- Every call in the statement has the position of its callee. -/
def Stmt.CallsPlaced : Stmt → Prop
  | .expr e => e.CallsPlaced
  | .assign _ value => value.CallsPlaced
  | .block body => Stmt.AllCallsPlaced body
  | .ifThen condition body => condition.CallsPlaced ∧ body.CallsPlaced
  | .forLoop _ condition body => (∀ e ∈ condition, e.CallsPlaced) ∧ body.CallsPlaced
  | .breakLoop => True
  | .continueLoop => True
  | .returnValue value => ∀ e ∈ value, e.CallsPlaced
  | .function _ _ body => Stmt.AllCallsPlaced body

/-- Every call in the statements has the position of its callee. -/
def Stmt.AllCallsPlaced : List Stmt → Prop
  | [] => True
  | s :: rest => s.CallsPlaced ∧ Stmt.AllCallsPlaced rest

end

theorem Expr.eachLeaves_eq_map (es : List Expr) : Expr.eachLeaves es = es.map Expr.leaves := by
  induction es with
  | nil => rfl
  | cons e rest ih => exact congrArg (e.leaves :: ·) ih

theorem Expr.allCallsPlaced_iff (es : List Expr) :
    Expr.AllCallsPlaced es ↔ ∀ e ∈ es, e.CallsPlaced := by
  induction es with
  | nil => exact ⟨fun _ _ h => (List.not_mem_nil h).elim, fun _ => trivial⟩
  | cons e rest ih =>
    rw [List.forall_mem_cons, ← ih]
    rfl

theorem Stmt.allLeaves_append (body more : List Stmt) :
    Stmt.allLeaves (body ++ more) = Stmt.allLeaves body ++ Stmt.allLeaves more := by
  induction body with
  | nil => rfl
  | cons s rest ih => rw [List.cons_append, allLeaves, allLeaves, ih, List.append_assoc]

theorem Stmt.allCallsPlaced_append {body more : List Stmt} (hbody : Stmt.AllCallsPlaced body)
    (hmore : Stmt.AllCallsPlaced more) : Stmt.AllCallsPlaced (body ++ more) := by
  induction body with
  | nil => exact hmore
  | cons s rest ih => exact ⟨hbody.1, ih hbody.2⟩

theorem Leaf.withCommas_concat {lists : List (List Leaf)} (h : lists ≠ []) (last : List Leaf) :
    Leaf.withCommas (lists ++ [last]) =
      Leaf.withCommas lists ++ [.unplaced (.symbol .comma)] ++ last := by
  cases lists with
  | nil => exact absurd rfl h
  | cons first more => simp [withCommas]

/-! ## What was read from what -/

/-- The tokens of which trees keep something. -/
def keptTokens (taken : List Mark) : List Token :=
  (taken.map (·.token)).filter (·.kind.isKept)

@[simp] theorem keptTokens_append (before more : List Mark) :
    keptTokens (before ++ more) = keptTokens before ++ keptTokens more := by
  simp [keptTokens]

/-- The leaves are what trees keep of the tokens. -/
def Leaf.AllOf (leaves : List Leaf) (taken : List Mark) : Prop :=
  List.Forall₂ Leaf.Of leaves (keptTokens taken)

namespace Leaf.AllOf

variable {leaves more : List Leaf} {taken next : List Mark} {m : Mark}

theorem nil : AllOf [] [] := List.Forall₂.nil

theorem append (h : AllOf leaves taken) (hmore : AllOf more next) :
    AllOf (leaves ++ more) (taken ++ next) := by
  unfold AllOf
  rw [keptTokens_append]
  exact List.rel_append h hmore

/-- One token that is kept without its position. -/
theorem unplaced {kind : Token.Kind} (hm : m.token.kind = kind) (hkept : kind.isKept = true) :
    AllOf [.unplaced kind] [m] := by
  have hkeeps : keptTokens [m] = [m.token] := by simp [keptTokens, hm, hkept]
  unfold AllOf
  rw [hkeeps]
  exact .cons ⟨congrArg some hm.symm, fun _ hpos => by cases hpos⟩ .nil

/-- One token that is kept with its position. -/
theorem placed {token : Token} {joined : Bool} {kind : Token.Kind} (htoken : token.kind = kind)
    (hkept : kind.isKept = true) : AllOf [.placed kind token.pos] [⟨token, joined⟩] := by
  have hkeeps : keptTokens [⟨token, joined⟩] = [token] := by simp [keptTokens, htoken, hkept]
  unfold AllOf
  rw [hkeeps]
  exact .cons ⟨congrArg some htoken.symm, fun _ hpos => by cases hpos; rfl⟩ .nil

/-- Tokens that are not kept are no leaves. -/
theorem dropped (h : ∀ m ∈ taken, m.token.kind.isKept = false) : AllOf [] taken := by
  have hnone : keptTokens taken = [] := by
    simpa [keptTokens] using h
  unfold AllOf
  rw [hnone]
  exact .nil

section

variable {kind : Token.Kind} (hleaves : AllOf leaves taken) (hm : m.token.kind = kind)
  (hkept : kind.isKept = false)
include hleaves hm hkept

theorem drop_left : AllOf leaves ([m] ++ taken) :=
  (dropped (by simpa [hm] using hkept)).append hleaves

theorem drop_right : AllOf leaves (taken ++ [m]) := by
  have hmore := hleaves.append (@dropped [m] (by simpa [hm] using hkept))
  rwa [List.append_nil] at hmore

end

/-- Leaves are leaves of some token. -/
theorem ne_nil (h : AllOf leaves taken) (hleaves : leaves ≠ []) : taken ≠ [] := by
  rintro rfl
  exact hleaves (List.forall₂_nil_right_iff.mp h)

end Leaf.AllOf

/-- What was read has the tokens as its leaves, and its calls where their callees are. What these
are depends on what is read. -/
structure ReadFrom {α : Type} (leaves : α → List Leaf) (good : α → Prop) (a : α)
    (taken : List Mark) : Prop where
  leaves : Leaf.AllOf (leaves a) taken
  good : good a

namespace ReadFrom

variable {α : Type} {leaves : α → List Leaf} {good : α → Prop} {a : α} {taken : List Mark}
  {m : Mark} {kind : Token.Kind} (h : ReadFrom leaves good a taken) (hm : m.token.kind = kind)
  (hkept : kind.isKept = false)
include h hm hkept

/-- A token before it that is not kept changes nothing. -/
theorem drop_left : ReadFrom leaves good a ([m] ++ taken) :=
  ⟨h.leaves.drop_left hm hkept, h.good⟩

/-- Nor does one behind it. -/
theorem drop_right : ReadFrom leaves good a (taken ++ [m]) :=
  ⟨h.leaves.drop_right hm hkept, h.good⟩

end ReadFrom

/-- The expression was read from the tokens. -/
abbrev Expr.ReadFrom : Expr → List Mark → Prop := TwinScript.ReadFrom Expr.leaves Expr.CallsPlaced

/-- The statement was read from the tokens. -/
abbrev Stmt.ReadFrom : Stmt → List Mark → Prop := TwinScript.ReadFrom Stmt.leaves Stmt.CallsPlaced

/-- The statements were read from the tokens. -/
abbrev Stmt.AllReadFrom : List Stmt → List Mark → Prop :=
  TwinScript.ReadFrom Stmt.allLeaves Stmt.AllCallsPlaced

/-- The statements were read from the tokens behind an opening brace, the last of which closes
it. -/
abbrev Stmt.ClosedReadFrom : List Stmt → List Mark → Prop :=
  TwinScript.ReadFrom (fun body => Stmt.allLeaves body ++ [.unplaced (.symbol .rightBrace)])
    Stmt.AllCallsPlaced

/-- The name was read from the tokens. -/
abbrev NameReadFrom : String → List Mark → Prop :=
  ReadFrom (fun name => [.unplaced (.identifier name)]) fun _ => True

end TwinScript
