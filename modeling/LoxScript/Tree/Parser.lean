/-
  LoxScript.Tree.Parser
  ────────────────────────────────
  A reader that can be asked more than once.

  `Parser` keeps a list of tokens, a cursor into it, and the errors of the
  last parse.  A parse goes back to the first token and forgets the errors.
  Then it takes turns until the cursor stands on an end token or behind the
  list.  A turn is one attempt at a statement:

      attempt    — read on until the statement ends or an error shows
      recovery   — after an error, go on to the next statement (`resume`)

  Recovery may leave every token where it is, so that turns come to an end
  rests on the attempt: one that starts with a token takes at least that
  token (`length_lt_of_next?`).
-/
import LoxScript.Tree.Reader

namespace LoxScript
namespace Reader

/-! ## §1. The next statement. -/

/-- The tokens behind the next `;`, or from the next keyword on that starts a
statement; neither is looked for behind an end token. -/
def resume : List Token → List Token
  | [] => []
  | t :: ts =>
    if t.kind = .semicolon then ts
    else if t.kind.startsStatement ∨ t.kind = .endOfText then t :: ts
    else resume ts

/-- Whether only an operand can follow, as at the start of a statement that
no keyword starts. -/
def State.awaitsOperand : State → Bool
  | .fresh | .operand _ _ _ => true
  | .naming _ | .named _ | .operator _ _ _ _ | .skipping => false

/-! ## §2. One attempt. -/

/-- How the attempt in progress ends, and the tokens at which the next one
starts.  There is none between two statements if no token is left. -/
def State.next? (s : State) : List Token → Option (Attempt × List Token)
  | [] => s.finish.head?.map (·, [])
  | t :: ts =>
    if t.kind = .endOfText then s.finish.head?.map (·, t :: ts)
    else
      match (s.read t).attempts with
      | [] => (s.read t).state.next? ts
      | .ok stmt :: _ => some (.ok stmt, ts)
      | .error e :: _ =>
        -- a token that is no operand is gone, any other stays to be looked at again
        some (.error e, resume (if s.awaitsOperand then ts else t :: ts))

theorem length_resume_le (ts : List Token) : (resume ts).length ≤ ts.length := by
  induction ts with
  | nil => exact Nat.le_refl 0
  | cons t ts ih =>
    unfold resume
    split
    · exact Nat.le_succ _
    · split
      · exact Nat.le_refl _
      · exact Nat.le_succ_of_le ih

/-- At the end of the tokens an attempt is cut short, and nothing is read. -/
theorem finish_of_map_head? {ts rest : List Token} {a : Attempt} {s : State}
    (h : s.finish.head?.map (·, ts) = some (a, rest)) : s.finish.head? = some a ∧ rest = ts := by
  obtain ⟨a', ha, hpair⟩ := Option.map_eq_some_iff.1 h
  obtain ⟨rfl, rfl⟩ := Prod.mk.inj hpair
  exact ⟨ha, rfl⟩

/-- No attempt gives a token back. -/
theorem length_le_of_next? {ts rest : List Token} {a : Attempt} {s : State}
    (h : s.next? ts = some (a, rest)) : rest.length ≤ ts.length := by
  induction ts generalizing s with
  | nil => exact Nat.le_of_eq (congrArg List.length (finish_of_map_head? h).2)
  | cons t ts ih =>
    rw [State.next?] at h
    split at h
    · exact Nat.le_of_eq (congrArg List.length (finish_of_map_head? h).2)
    · split at h
      · exact Nat.le_succ_of_le (ih h)
      · obtain rfl := (Prod.mk.inj (Option.some.inj h)).2
        exact Nat.le_succ _
      · obtain rfl := (Prod.mk.inj (Option.some.inj h)).2
        refine Nat.le_trans (length_resume_le _) ?_
        split
        · exact Nat.le_succ _
        · exact Nat.le_refl _

/-- **Progress.**  An attempt takes the token that it starts with. -/
theorem length_lt_of_next? {ts rest : List Token} {a : Attempt}
    (h : State.fresh.next? ts = some (a, rest)) : rest.length < ts.length := by
  cases ts with
  | nil => cases h
  | cons t ts =>
    rw [State.next?] at h
    split at h
    · cases h
    · refine Nat.lt_succ_of_le ?_
      split at h
      · exact length_le_of_next? h
      · obtain rfl := (Prod.mk.inj (Option.some.inj h)).2
        exact Nat.le_refl _
      · obtain rfl := (Prod.mk.inj (Option.some.inj h)).2
        exact length_resume_le ts

/-- The error of an attempt, if it ended in one. -/
def errorOf? : Attempt → Option SyntaxError
  | .error e => some e
  | .ok _ => none

end Reader

/-! ## §3. Parsers. -/

/-- A list of tokens that is read, how many of them have been read, and what
has been found wrong with them. -/
structure Parser where
  tokens : List Token
  current : Nat
  errors : List SyntaxError

/-- What a failed parse says: its first error, and all of them. -/
structure Rejection where
  first : SyntaxError
  all : List SyntaxError

namespace Parser

/-- A parser that has not read anything. -/
def ofTokens (tokens : List Token) : Parser := ⟨tokens, 0, []⟩

/-- The tokens that are not read yet. -/
def rest (p : Parser) : List Token := p.tokens.drop p.current

/-- One turn: an attempt, the recovery from its error, and the cursor behind
both. -/
def turn? (p : Parser) : Option (Reader.Attempt × Parser) :=
  (Reader.State.fresh.next? p.rest).map fun (a, rest) =>
    (a, ⟨p.tokens, p.tokens.length - rest.length, p.errors ++ (Reader.errorOf? a).toList⟩)

theorem length_rest (p : Parser) : p.rest.length = p.tokens.length - p.current :=
  List.length_drop

theorem turn?_eq_some_iff {p p' : Parser} {a : Reader.Attempt} :
    p.turn? = some (a, p') ↔ ∃ rest, Reader.State.fresh.next? p.rest = some (a, rest)
      ∧ p' = ⟨p.tokens, p.tokens.length - rest.length,
          p.errors ++ (Reader.errorOf? a).toList⟩ := by
  unfold turn?
  rw [Option.map_eq_some_iff]
  constructor
  · rintro ⟨⟨a', rest⟩, hnext, hpair⟩
    obtain ⟨rfl, rfl⟩ := Prod.mk.inj hpair
    exact ⟨rest, hnext, rfl⟩
  · rintro ⟨rest, hnext, rfl⟩
    exact ⟨(a, rest), hnext, rfl⟩

/-- Each turn leaves fewer tokens to read. -/
theorem length_rest_lt {p p' : Parser} {a : Reader.Attempt} (h : p.turn? = some (a, p')) :
    p'.rest.length < p.rest.length := by
  obtain ⟨rest, hnext, rfl⟩ := turn?_eq_some_iff.1 h
  have hless := Reader.length_lt_of_next? hnext
  have hle := Nat.le_trans (Nat.le_of_lt hless) (Nat.le_of_eq p.length_rest)
  rw [length_rest]
  show p.tokens.length - (p.tokens.length - rest.length) < _
  rw [Nat.sub_sub_self (Nat.le_trans hle (Nat.sub_le _ _))]
  exact hless

/-- Turns up to the end of the tokens; the statements that they come to. -/
def turns (p : Parser) : List Stmt × Parser :=
  match _h : p.turn? with
  | none => ([], p)
  | some (a, p') =>
    let (stmts, q) := p'.turns
    (a.toOption.toList ++ stmts, q)
termination_by p.rest.length
decreasing_by exact length_rest_lt _h

/-- Parses the tokens from the first one on. -/
def parse (p : Parser) : Except Rejection (List Stmt) × Parser :=
  let (stmts, q) := (ofTokens p.tokens).turns
  match q.errors with
  | [] => (.ok stmts, q)
  | e :: es => (.error ⟨e, e :: es⟩, q)

end Parser
end LoxScript
