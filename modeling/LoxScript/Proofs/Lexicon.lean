/-
  LoxScript.Proofs.Lexicon
  ────────────────────────────────
  What a text of lexemes and gaps is, without a word about how one is cut.

      IsLexeme l k v        — `l` is a lexeme, its kind is `k`, its literal `v`
      IsGap g rest          — `g` is blanks and comments, in front of `rest`
      IsLongest l text k v  — no lexeme at the start of `text` is longer
      Partition text ts     — `text` is  gap lexeme gap ... lexeme gap,  every
                              lexeme the longest where it begins, and the
                              lexemes are those of the tokens `ts`

  A gap is judged by what follows it, because a comment runs up to a line
  break or to the end of the text: in `a // b` the name `b` is no lexeme,
  although `// ` alone would be a comment too.
-/
import LoxScript.Lexeme
import Mathlib

namespace LoxScript

/-! ## §1. Lexemes. -/

inductive IsLexeme : List Char → Kind → Value → Prop where
  | single {c : Char} {k : Kind} : (c, k) ∈ Kind.singles → IsLexeme [c] k .nil
  | joined {c : Char} {k k' : Kind} : (c, k, k') ∈ Kind.pairs → IsLexeme [c, '='] k .nil
  | alone {c : Char} {k k' : Kind} : (c, k', k) ∈ Kind.pairs → IsLexeme [c] k .nil
  | slash : IsLexeme ['/'] .slash .nil
  | string {cs : List Char} : '\x22' ∉ cs →
      IsLexeme ('\x22' :: cs ++ ['\x22']) .string (.text (String.ofList cs))
  | whole {ds : List Char} : ds ≠ [] → (∀ d ∈ ds, d.isDigit) →
      IsLexeme ds .number (.number (Decimal.readNumeral ds))
  | fraction {ds fs : List Char} : ds ≠ [] → fs ≠ [] → (∀ d ∈ ds, d.isDigit) →
      (∀ d ∈ fs, d.isDigit) →
      IsLexeme (ds ++ '.' :: fs) .number (.number (Decimal.readNumeral (ds ++ '.' :: fs)))
  | keyword {w : List Char} {k : Kind} : (String.ofList w, k) ∈ Kind.keywords →
      IsLexeme w k ((Kind.constants.lookup k).getD .nil)
  | name {c : Char} {cs : List Char} : startsWord c → (∀ d ∈ cs, continuesWord d) →
      (∀ k, (String.ofList (c :: cs), k) ∉ Kind.keywords) →
      IsLexeme (c :: cs) .identifier (.name (String.ofList (c :: cs)))

/-! ## §2. Gaps. -/

/-- The characters that separate lexemes and mean nothing else. -/
def blanks : List Char := [' ', '\t', '\r', '\n']

/-- Blanks and comments in front of a text.  A comment ends before a line
break or with the text. -/
inductive IsGap : List Char → List Char → Prop where
  | nil {rest : List Char} : IsGap [] rest
  | blank {c : Char} {gap rest : List Char} : c ∈ blanks → IsGap gap rest → IsGap (c :: gap) rest
  | comment {cs gap rest : List Char} : '\n' ∉ cs → (∀ c ∈ (gap ++ rest).head?, c = '\n') →
      IsGap gap rest → IsGap ('/' :: '/' :: cs ++ gap) rest

/-! ## §3. Partitions. -/

/-- A lexeme at the start of a text, where no comment starts and no longer
lexeme. -/
structure IsLongest (l text : List Char) (k : Kind) (v : Value) : Prop where
  lexeme : IsLexeme l k v
  starts : l <+: text
  noComment : ¬ ['/', '/'] <+: text
  length_le : ∀ l' k' v', IsLexeme l' k' v' → l' <+: text → l'.length ≤ l.length

/-- A text with a gap before each lexeme and after the last one. -/
inductive Partition : List Char → List Token → Prop where
  | last {gap : List Char} : IsGap gap [] → Partition gap []
  | token {gap rest : List Char} {t : Token} {ts : List Token} :
      IsGap gap (t.lexeme.toList ++ rest) →
      IsLongest t.lexeme.toList (t.lexeme.toList ++ rest) t.kind t.literal →
      Partition rest ts → Partition (gap ++ (t.lexeme.toList ++ rest)) (t :: ts)

theorem Partition.blank {c : Char} {text : List Char} {ts : List Token} (hc : c ∈ blanks)
    (h : Partition text ts) : Partition (c :: text) ts := by
  cases h with
  | last hgap => exact .last (.blank hc hgap)
  | token hgap hlongest hrest =>
    rw [← List.cons_append]
    exact .token (.blank hc hgap) hlongest hrest

theorem Partition.comment {cs text : List Char} {ts : List Token} (hcs : '\n' ∉ cs)
    (hend : ∀ c ∈ text.head?, c = '\n') (h : Partition text ts) :
    Partition ('/' :: '/' :: cs ++ text) ts := by
  cases h with
  | last hgap => exact .last (.comment hcs (by rwa [List.append_nil]) hgap)
  | token hgap hlongest hrest =>
    rw [← List.append_assoc]
    exact .token (.comment hcs hend hgap) hlongest hrest

theorem Partition.lexeme {l rest : List Char} {k : Kind} {v : Value} {ts : List Token}
    (hlongest : IsLongest l (l ++ rest) k v) (line : Int) (h : Partition rest ts) :
    Partition (l ++ rest) (⟨k, String.ofList l, v, line⟩ :: ts) := by
  have hl : (String.ofList l).toList = l := String.toList_ofList
  have hfirst : IsLongest (String.ofList l).toList ((String.ofList l).toList ++ rest) k v := by
    rwa [hl]
  have htoken := Partition.token (t := ⟨k, String.ofList l, v, line⟩) .nil hfirst h
  rwa [List.nil_append, hl] at htoken

/-- No lexeme is the end of a text. -/
theorem IsLexeme.kind_ne_endOfText {l : List Char} {k : Kind} {v : Value}
    (h : IsLexeme l k v) : k ≠ .endOfText := by
  have hsingles : ∀ p ∈ Kind.singles, p.2 ≠ .endOfText := by decide
  have hpairs : ∀ p ∈ Kind.pairs, p.2.1 ≠ .endOfText ∧ p.2.2 ≠ .endOfText := by decide
  have hkeywords : ∀ p ∈ Kind.keywords, p.2 ≠ .endOfText := by decide
  cases h with
  | single hm => exact hsingles _ hm
  | joined hm => exact (hpairs _ hm).1
  | alone hm => exact (hpairs _ hm).2
  | keyword hm => exact hkeywords _ hm
  | slash | string _ | whole _ _ | fraction _ _ _ _ | name _ _ _ => decide

theorem Partition.kind_ne_endOfText {text : List Char} {ts : List Token}
    (h : Partition text ts) : ∀ t ∈ ts, t.kind ≠ .endOfText := by
  induction h with
  | last _ => simp
  | token _ hlongest _ ih =>
    exact List.forall_mem_cons.2 ⟨hlongest.lexeme.kind_ne_endOfText, ih⟩

end LoxScript
