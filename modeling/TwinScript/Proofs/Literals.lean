import TwinScript.Proofs.Interpreter
import TwinScript.Proofs.Syntax.Joins
import TwinScript.Proofs.Syntax.ReadBack.Expressions
import TwinScript.Proofs.Token.Literals

/-!
# Strings on several lines

How the newlines in a string are written changes no program, as long as nothing that stays on a line
follows on the line where the string ends. It does where something does follow: a string stands on
the line where it begins, so a sign or a parenthesis behind its end opens a statement of its own,
and goes on with the string if the string ends on its first line.

* `LooselyAlike.of_sameGaps`: elsewhere the joins that the grammar looks at are the same.
* `newline_spellings_make_no_difference`: and so are the programs.
-/

namespace TwinScript

/-- The token `t` goes down some lines, and on the last of them follows a symbol that goes on with
an expression only on its line. -/
def Token.EndsBefore (t next : Token) : Prop :=
  0 < t.breaks ∧ next.pos.line = t.pos.line + t.breaks ∧
    ∃ s : Symbol, next.kind = .symbol s ∧ s.staysOnLine = true

/-- No string that goes down some lines is followed by a sign or a parenthesis on the line where it
ends. -/
def NothingStaysBehind (tokens : List Token) : Prop :=
  List.IsChain (fun t next => ¬ t.EndsBefore next) tokens

/-- Tokens of one kind. -/
def Token.SameKind (t t' : Token) : Prop := t.kind = t'.kind

/-- Behind the same gaps, tokens have the same joins as far as the grammar looks at them, and the
first of them has the same at any rate if what is before it goes down as many lines. -/
theorem marksAfter_of_sameGaps {before before' : Token} {tokens tokens' : List Token}
    (h : SameGaps (before.pos.line + before.breaks) (before'.pos.line + before'.breaks) tokens
      tokens') (hfewer : before'.breaks ≤ before.breaks)
    (hbehind : NothingStaysBehind (before :: tokens)) :
    LooselyAlike Token.SameKind (marksAfter before tokens) (marksAfter before' tokens') ∧
      (before'.breaks = before.breaks → (marksAfter before tokens).head?.map (·.joined) =
        (marksAfter before' tokens').head?.map (·.joined)) := by
  generalize hn : before.pos.line + before.breaks = n at h
  generalize hn' : before'.pos.line + before'.breaks = n' at h
  induction h generalizing before before' with
  | nil => exact ⟨.nil, fun _ => rfl⟩
  | @cons n n' gap t t' ts ts' hkind hline hline' hless hsame _ ih =>
    obtain ⟨hnext, hrest⟩ := List.isChain_cons_cons.mp hbehind
    obtain ⟨hloose, hhead⟩ := ih hless hrest rfl rfl
    refine ⟨.cons hkind (fun s hs hstays => ?_) (fun hword => hhead (hsame ?_)) hloose,
      fun hsame => congrArg some ?_⟩
    · -- the symbol is on the last line of what is before it only if that is its first line too
      refine decide_eq_decide.mpr ?_
      by_cases hbreaks : 0 < before.breaks
      · have hlast : t.pos.line ≠ before.pos.line + before.breaks := fun heq =>
          hnext ⟨hbreaks, heq, s, hs, hstays⟩
        omega
      · omega
    · intro v hv
      rw [hv] at hword
      cases hword
    · refine decide_eq_decide.mpr ?_
      omega

theorem SameGaps.kinds_eq {n n' : Nat} {tokens tokens' : List Token}
    (h : SameGaps n n' tokens tokens') : tokens.map (·.kind) = tokens'.map (·.kind) := by
  induction h with
  | nil => rfl
  | cons hkind _ _ _ _ _ ih => rw [List.map_cons, List.map_cons, hkind, ih]

theorem LooselyAlike.of_sameGaps {tokens tokens' : List Token} {n n' : Nat}
    (h : SameGaps n n' tokens tokens') (hbehind : NothingStaysBehind tokens) :
    LooselyAlike Token.SameKind (marks tokens) (marks tokens') := by
  cases h with
  | nil => exact .nil
  | @cons n n' gap t t' ts ts' hkind _ _ hfewer hsame hrest =>
    obtain ⟨hloose, hhead⟩ := marksAfter_of_sameGaps hrest hfewer hbehind
    refine .cons hkind (fun _ _ _ => rfl) (fun hword => hhead (hsame fun v hv => ?_)) hloose
    dsimp only at hword
    rw [hv] at hword
    cases hword

/-- **How the newlines in strings are written makes no difference** to a text that scans, if nothing
that stays on a line follows a string on a later line than its first: with any of them written as
escapes it scans to tokens of the same kinds, and these are the same program up to positions, or
none for the same reason. -/
theorem newline_spellings_make_no_difference {s s' : String} (h : NewlinesReplaced s s')
    {tokens : List Token} (htokens : tokenize s = .ok tokens)
    (hbehind : NothingStaysBehind tokens) :
    ∃ tokens', tokenize s' = .ok tokens' ∧ tokens.map (·.kind) = tokens'.map (·.kind) ∧
      AnswersAlike (ParseError.Like Token.SameKind) Stmt.AllSame (parse tokens)
        (parse tokens') := by
  obtain ⟨tokens', htokens', hgaps⟩ := h.tokenize htokens
  have htok : TokensAt Token.SameKind fun _ _ => True := fun _ _ hkind => ⟨hkind, trivial⟩
  exact ⟨tokens', htokens', hgaps.kinds_eq,
    parse_loosely_alike htok (.of_sameGaps hgaps hbehind)⟩

/-- A string on two lines that is multiplied on the second. -/
theorem newline_spellings_make_no_difference_of_product :
    let s := "\"a\nb\" * 2"
    let s' := "\"a\\nb\" * 2"
    ∃ tokens tokens', tokenize s = .ok tokens ∧ tokenize s' = .ok tokens' ∧
      NewlinesReplaced s s' ∧ NothingStaysBehind tokens ∧
      AnswersAlike (ParseError.Like Token.SameKind) Stmt.AllSame (parse tokens)
        (parse tokens') := by
  intro s s'
  have htokens : tokenize s = .ok [⟨.string "a\nb", "\"a\nb\"", .start⟩,
      ⟨.symbol .star, "*", ⟨2, 4⟩⟩, ⟨.integer 2, "2", ⟨2, 6⟩⟩] := by decide +kernel
  have hbody : NewlinesEscaped ['a', '\n', 'b'] ['a', '\\', 'n', 'b'] :=
    .plain (by decide) (.newline (.plain (by decide) .nil))
  have hreplaced : NewlinesReplaced s s' :=
    newlinesReplaced_of_string '"' [' ', '*', ' ', '2'] hbody (by decide +kernel)
      (by decide +kernel) (by decide +kernel) htokens
  have hbehind : NothingStaysBehind [⟨.string "a\nb", "\"a\nb\"", .start⟩,
      ⟨.symbol .star, "*", ⟨2, 4⟩⟩, ⟨.integer 2, "2", ⟨2, 6⟩⟩] := by
    refine .cons_cons ?_ (.cons_cons ?_ (.singleton _))
    · rintro ⟨-, -, _, ⟨⟩, ⟨⟩⟩
    · rintro ⟨-, -, _, ⟨⟩, -⟩
  obtain ⟨tokens', htokens', -, halike⟩ :=
    newline_spellings_make_no_difference hreplaced htokens hbehind
  exact ⟨_, tokens', htokens, htokens', hreplaced, hbehind, halike⟩

/-- A string on two lines with a sign behind it: the sign opens a statement of its own, but with the
newline written as an escape it is a difference. -/
theorem newline_spelling_makes_a_difference :
    let s := "\"a\nb\" - 1"
    let s' := "\"a\\nb\" - 1"
    NewlinesReplaced s s' ∧ ∃ program program', readProgram s = .ok program ∧
      readProgram s' = .ok program' ∧ ¬ Stmt.AllSame program program' := by
  intro s s'
  have htokens : tokenize s = .ok [⟨.string "a\nb", "\"a\nb\"", .start⟩,
      ⟨.symbol .minus, "-", ⟨2, 4⟩⟩, ⟨.integer 1, "1", ⟨2, 6⟩⟩] := by decide +kernel
  have htokens' : tokenize s' = .ok [⟨.string "a\nb", "\"a\\nb\"", .start⟩,
      ⟨.symbol .minus, "-", ⟨1, 8⟩⟩, ⟨.integer 1, "1", ⟨1, 10⟩⟩] := by decide +kernel
  have hbody : NewlinesEscaped ['a', '\n', 'b'] ['a', '\\', 'n', 'b'] :=
    .plain (by decide) (.newline (.plain (by decide) .nil))
  have hreplaced : NewlinesReplaced s s' :=
    newlinesReplaced_of_string '"' [' ', '-', ' ', '1'] hbody (by decide +kernel)
      (by decide +kernel) (by decide +kernel) htokens
  refine ⟨hreplaced, _, _, readProgram_eq_ok.mpr ⟨_, htokens, rfl⟩,
    readProgram_eq_ok.mpr ⟨_, htokens', rfl⟩, ?_⟩
  intro hsame
  have hlength := hsame.length_eq
  cases hlength

end TwinScript
