import TwinScript.Proofs.Eval.Likeness
import TwinScript.Proofs.Syntax.LineBreaks
import TwinScript.Proofs.Token.Respelling

/-!
# Spellings make no difference

A program may spell each reserved word in any of the ways that are accepted. Which one it takes
shows in columns and in lexemes, and these reach nothing but the text of error messages: the parser
looks at kinds and line breaks, and a running program at neither.

* `spellings_make_no_difference`: a respelled text scans, parses and runs alike, up to columns.
-/

namespace TwinScript

/-- Tokens of the same kinds on the same lines are parsed to trees that are alike up to columns, or
with the same fault at the same index. -/
theorem parse_sameLine {tokens tokens' : List Token}
    (h : List.Forall₂ Token.SameLine tokens tokens') :
    AnswersAlike (ParseError.Like fun t t' => t.SameLine t' ∧ Token.Paired tokens tokens' t t')
      (Stmt.AllLike Position.SameLine) (parse tokens) (parse tokens') := by
  refine parse_alike (fun t t' ht => ht.1) (marks_alike ?_ (Token.forall₂_paired h))
  intro t t' s s' ht hs
  have htline : t.pos.line = t'.pos.line := ht.1.2
  have hsline : s.pos.line = s'.pos.line := hs.1.2
  rw [htline, hsline]

/-- **Spellings make no difference.** If some reserved words of a text are spelled in another way,
the text has the same number of tokens, of the same kinds and on the same lines. It is parsed to the
same tree up to columns, or with the same fault at the same token. And from any state of an
interpreter, both texts run to an end or neither does; if they do, they print the same, bind the same
names to the same values up to columns in functions, and give the same value or the same error on
the same line. -/
theorem spellings_make_no_difference {s s' : String} (h : Respelled s s') :
    ∃ tokens tokens', tokenize s = .ok tokens ∧ tokenize s' = .ok tokens' ∧
      List.Forall₂ Token.SameLine tokens tokens' ∧
      AnswersAlike (ParseError.Like (Token.Paired tokens tokens'))
        (Stmt.AllLike Position.SameLine) (parse tokens) (parse tokens') ∧
      ∀ (it : Interpreter) (fuel : Nat),
        Ending.Like Position.SameLine (ProgramError.Like Position.SameLine)
          (Option.Rel (Val.Like Position.SameLine)) (it.runWithin fuel s) (it.runWithin fuel s') := by
  obtain ⟨tokens, tokens', htokens, htokens', hsame⟩ := h.tokenize
  have hparse := parse_sameLine hsame
  refine ⟨tokens, tokens', htokens, htokens', hsame, ?_, fun it fuel => ?_⟩
  · exact hparse.mono (fun _ _ he => he.mono fun _ _ ht => ht.2) fun _ _ h => h
  · have hself : it.Like Position.SameLine it := it.like_self fun _ _ => rfl
    apply Interpreter.runWithin_alike fuel hself
    rw [readProgram_of_tokenize htokens, readProgram_of_tokenize htokens']
    refine hparse.mapError fun e e' he => .parse he.fault_eq ?_
    exact he.token?.map fun _ _ ht => ht.1.2

/-- A conditional runs alike in either vocabulary. -/
theorem conditional_in_either_vocabulary :
    Respelled "if 1 \x7b\x7d" "yedi 1 \x7b\x7d" ∧
      ∀ (it : Interpreter) (fuel : Nat),
        Ending.Like Position.SameLine (ProgramError.Like Position.SameLine)
          (Option.Rel (Val.Like Position.SameLine)) (it.runWithin fuel "if 1 \x7b\x7d")
          (it.runWithin fuel "yedi 1 \x7b\x7d") := by
  have hrespelled : Respelled "if 1 \x7b\x7d" "yedi 1 \x7b\x7d" := by
    refine ⟨[⟨.keyword .ifWord, "if", ⟨1, 1⟩⟩, ⟨.integer 1, "1", ⟨1, 4⟩⟩,
      ⟨.symbol .leftBrace, "\x7b", ⟨1, 6⟩⟩, ⟨.symbol .rightBrace, "\x7d", ⟨1, 7⟩⟩],
      by decide +kernel, ?_⟩
    refine @Respelling.respell _ [] ['i', 'f'] "yedi".toList " 1 \x7b\x7d".toList
      " 1 \x7b\x7d".toList _ _ .ifWord rfl (by decide) rfl rfl ?_
    refine @Respelling.keep _ [' '] ['1'] " \x7b\x7d".toList " \x7b\x7d".toList _ _ rfl rfl ?_
    refine @Respelling.keep _ [' '] ['\x7b'] "\x7d".toList "\x7d".toList _ _ rfl rfl ?_
    exact @Respelling.keep _ [] ['\x7d'] [] [] _ _ rfl rfl (.nil [])
  refine ⟨hrespelled, fun it fuel => ?_⟩
  obtain ⟨_, _, -, -, -, -, hruns⟩ := spellings_make_no_difference hrespelled
  exact hruns it fuel

end TwinScript
