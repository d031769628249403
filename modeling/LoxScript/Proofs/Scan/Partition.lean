/-
  LoxScript.Proofs.Scan.Partition
  ────────────────────────────────
  A scanned text is a partition into gaps and longest lexemes.

  The induction is the one of `cut`: what the first piece is, is known
  (`beginning_isFirst`), and the rest of the text is shorter.  The line at
  which a piece is placed is general, for no gap and no lexeme depends on it.

      partition_of_cut       — the pieces of a text that is cut to its end
      partition_of_tokensOf  — the tokens of a source text
-/
import LoxScript.Proofs.Scan.Beginning
import LoxScript.Token.Scan

namespace LoxScript

theorem partition_of_cut (cs : List Char) :
    (cut cs).stop = .finished → ∀ line, Partition cs (place line (cut cs).pieces) := by
  fun_induction cut cs with
  | case1 => exact fun _ _ => .last .nil
  | case2 c cs p rest hb r ih =>
    intro hstop line
    obtain ⟨t, hp, rfl⟩ := beginning_text hb
    have hrest := ih hstop
    -- a gap goes to the gap of the next lexeme
    cases beginning_isFirst hb with
    | blank hblank =>
      obtain ⟨rfl, rfl⟩ := List.cons.inj hp
      exact (hrest _).blank hblank
    | comment hbody hend =>
      obtain ⟨rfl, rfl⟩ := List.cons.inj hp
      exact (hrest _).comment hbody hend
    | @lexeme k l hlongest =>
      have hl : l = c :: t := hp
      subst hl
      exact .lexeme hlongest _ (hrest _)
  | case3 | case4 =>
    intro hstop
    cases hstop

/-- A source text has tokens where it is cut to its end. -/
theorem tokensOf_eq_ok_iff (source : String) (tokens : List Token) :
    tokensOf source = .ok tokens ↔
      (cut source.toList).stop = .finished
        ∧ tokens = place 1 (cut source.toList).pieces
            ++ [endToken (1 + source.toList.count '\n')] := by
  have htext := cut_text source.toList
  unfold tokensOf scan
  cases hstop : (cut source.toList).stop with
  | finished =>
    rw [hstop, Stop.rest, List.append_nil] at htext
    -- nothing is left uncut, so the breaks of the pieces are those of the text
    have hbreaks : Text.breaks (piecesText (cut source.toList).pieces)
        = source.toList.count '\n' := by rw [htext, Text.breaks]
    simp only [hstop, hbreaks, Except.ok.injEq, true_and]
    exact eq_comm
  | unclosed _ => simp [hstop]
  | stray _ _ => simp [hstop]

/-- **LOSSLESS, MAXIMAL SCANNING.**  A scanned source text is a partition
into gaps and longest lexemes, and the tokens are those of its lexemes, and
one end token that stands on the line after all line breaks. -/
theorem partition_of_tokensOf {source : String} {tokens : List Token}
    (h : tokensOf source = .ok tokens) :
    ∃ ts, tokens = ts ++ [⟨.endOfText, "", .nil, (1 + source.toList.count '\n' : Nat)⟩]
      ∧ (∀ t ∈ ts, t.kind ≠ .endOfText) ∧ Partition source.toList ts := by
  obtain ⟨hstop, rfl⟩ := (tokensOf_eq_ok_iff source tokens).1 h
  have hpartition := partition_of_cut source.toList hstop 1
  exact ⟨_, rfl, hpartition.kind_ne_endOfText, hpartition⟩

theorem partition_of_tokensOf_comment :
    tokensOf "a!=12.// b\n\"c\"" = .ok
        [⟨.identifier, "a", .name "a", 1⟩, ⟨.bangEqual, "!=", .nil, 1⟩,
         ⟨.number, "12", .number (Decimal.readNumeral ['1', '2']), 1⟩, ⟨.dot, ".", .nil, 1⟩,
         ⟨.string, "\"c\"", .text "c", 2⟩, ⟨.endOfText, "", .nil, 2⟩]
      ∧ ∃ ts, tokensOf "a!=12.// b\n\"c\""
          = .ok (ts ++ [⟨.endOfText, "", .nil,
              (1 + "a!=12.// b\n\"c\"".toList.count '\n' : Nat)⟩])
        ∧ (∀ t ∈ ts, t.kind ≠ .endOfText) ∧ Partition "a!=12.// b\n\"c\"".toList ts := by
  have hcut : cut "a!=12.// b\n\"c\"".toList
      = ⟨[.lexeme .identifier ['a'], .lexeme .bangEqual ['!', '='], .lexeme .number ['1', '2'],
          .lexeme .dot ['.'], .gap ['/', '/', ' ', 'b'], .gap ['\n'],
          .lexeme .string ['\x22', 'c', '\x22']], .finished⟩ := by
    cbv
  have htokens : tokensOf "a!=12.// b\n\"c\"" = .ok
        [⟨.identifier, "a", .name "a", 1⟩, ⟨.bangEqual, "!=", .nil, 1⟩,
         ⟨.number, "12", .number (Decimal.readNumeral ['1', '2']), 1⟩, ⟨.dot, ".", .nil, 1⟩,
         ⟨.string, "\"c\"", .text "c", 2⟩, ⟨.endOfText, "", .nil, 2⟩] := by
    rw [tokensOf_eq_ok_iff, hcut]
    exact ⟨rfl, rfl⟩
  obtain ⟨ts, hts, hrest⟩ := partition_of_tokensOf htokens
  exact ⟨htokens, ts, by rw [htokens, hts], hrest⟩

end LoxScript
