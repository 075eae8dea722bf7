import RecordLambda.Text.Quoted
import Mathlib.Algebra.Group.Nat.Defs
import Mathlib.Data.List.Forall2
import Mathlib.Tactic.Lemma

/-!
# Quoted text is self-delimiting

What is written for one thing can be told from what is written for another, whatever follows: from
the text alone it is seen which thing was written and where it ends. This is more than that
different things have different texts, and unlike that it goes over from the parts to the whole.

For quoted text it rests on three facts. What follows a backslash decides what kind of escape it is;
the code in an escape has as many digits as the letter before it says; and the quote in use never
stands inside by itself.
-/

namespace RecordLambda.Text

/-! ## Texts that can be told apart -/

section ToldApart

variable {α : Type} {write : α → List Char} {a b : α} {as bs : List α} {sep r s : List Char}

/-- A text cannot start with what is written for `a` and with what is written for `b`, unless they
are the same. -/
def ToldApart (write : α → List Char) (a b : α) : Prop :=
  ∀ r s, write a ++ r = write b ++ s → a = b ∧ r = s

/-- Separated lists of the same length can be told apart if their items can. -/
lemma toldApart_intercalate (items : List.Forall₂ (ToldApart write) as bs)
    (eq : sep.intercalate (as.map write) ++ r = sep.intercalate (bs.map write) ++ s) :
    as = bs ∧ r = s := by
  induction items with
  | nil => exact ⟨rfl, eq⟩
  | @cons a b as bs apart rest ih =>
    cases rest with
    | nil =>
      simp only [List.map_cons, List.map_nil, List.intercalate_singleton] at eq
      obtain ⟨rfl, left⟩ := apart r s eq
      exact ⟨rfl, left⟩
    | cons _ _ =>
      simp only [List.map_cons, List.intercalate_cons_cons, List.append_assoc] at eq
      obtain ⟨rfl, left⟩ := apart _ _ eq
      obtain ⟨same, left⟩ := ih (List.append_cancel_left left)
      exact ⟨congrArg _ same, left⟩

end ToldApart

/-! ## Codes -/

lemma length_hexDigits (width n : Nat) : (hexDigits width n).length = width := by
  induction width generalizing n with
  | zero => rfl
  | succ width ih => rw [hexDigits, List.length_append, ih, List.length_singleton]

/-- Different digits have different characters. -/
lemma digitChar_inj : ∀ i < 16, ∀ j < 16, Nat.digitChar i = Nat.digitChar j → i = j := by
  decide

/-- A number that fits is given by its digits. -/
lemma hexDigits_inj {width m n : Nat} (ltM : m < 16 ^ width) (ltN : n < 16 ^ width)
    (eq : hexDigits width m = hexDigits width n) : m = n := by
  induction width generalizing m n with
  | zero => omega
  | succ width ih =>
    rw [Nat.pow_succ] at ltM ltN
    obtain ⟨high, low⟩ := List.append_inj' eq rfl
    have high := ih (by omega) (by omega) high
    have low := digitChar_inj _ (by omega) _ (by omega) (List.singleton_inj.1 low)
    omega

/-- The letters that announce a code, with the number of its digits. -/
def codeMarks : List (Char × Nat) := [('x', 2), ('u', 4), ('U', 8)]

/-- The letter of an escape with a code says how many digits there are. -/
lemma codeMarks_inj : ∀ k ∈ codeMarks, ∀ k' ∈ codeMarks, k.1 = k'.1 → k = k' := by decide

/-- The code of a character fits into the digits of its escape. -/
lemma exists_codeEscape (c : Char) :
    ∃ k ∈ codeMarks, c.toNat < 16 ^ k.2 ∧ codeEscape c = '\\' :: k.1 :: hexDigits k.2 c.toNat := by
  unfold codeEscape
  split
  · exact ⟨('x', 2), by decide, by omega, rfl⟩
  · split
    · exact ⟨('u', 4), by decide, by omega, rfl⟩
    · exact ⟨('U', 8), by decide, c.val.toNat_lt, rfl⟩

/-! ## Escapes -/

/-- The two quotes. -/
def quotes : List Char := ['\'', '"']

/-- The other letters that stand behind a backslash, with what they stand for. -/
def letters : List (Char × Char) :=
  [('\\', '\\'), ('\'', '\''), ('"', '"'), ('n', '\n'), ('r', '\r'), ('t', '\t')]

/-- The letter of a short escape says which character is meant. -/
lemma letters_inj : ∀ k ∈ letters, ∀ k' ∈ letters, k.1 = k'.1 → k = k' := by decide

/-- Short escapes have other letters than those with a code. -/
lemma letters_ne_codeMarks : ∀ k ∈ letters, ∀ k' ∈ codeMarks, k.1 ≠ k'.1 := by decide

/-- The ways to write a character between two quotes `q`. -/
inductive Escaped (q : Char) : Char → List Char → Prop where
  | plain {c} :
    c ≠ '\\' →
    c ≠ q →
    Escaped q c [c]
  | letter {k} :
    k ∈ letters →
    Escaped q k.2 ['\\', k.1]
  | code {c k} :
    k ∈ codeMarks →
    c.toNat < 16 ^ k.2 →
    Escaped q c ('\\' :: k.1 :: hexDigits k.2 c.toNat)

variable {q c d : Char} {u w r s : List Char}

lemma quote_mem_letters : ∀ q ∈ quotes, (q, q) ∈ letters := by simp [quotes, letters]

/-- What is written for a character is one of its escapes. -/
lemma escaped_escapeChar (quote : q ∈ quotes) (c : Char) : Escaped q c (escapeChar q c) := by
  unfold escapeChar
  split
  case isTrue special =>
    obtain rfl | rfl := special
    · exact .letter (k := ('\\', '\\')) (by decide)
    · exact .letter (k := (c, c)) (quote_mem_letters c quote)
  case isFalse ordinary =>
    obtain ⟨slash, other⟩ := not_or.1 ordinary
    split
    case isTrue e => subst e; exact .letter (k := ('n', '\n')) (by decide)
    split
    case isTrue e => subst e; exact .letter (k := ('r', '\r')) (by decide)
    split
    case isTrue e => subst e; exact .letter (k := ('t', '\t')) (by decide)
    split
    case isTrue _ => exact .plain slash other
    obtain ⟨k, mem, lt, eq⟩ := exists_codeEscape c
    rw [eq]
    exact .code mem lt

namespace Escaped

/-- What is written for a character does not begin with the quote. -/
lemma ne_quote (esc : Escaped q c w) (quote : q ∈ quotes) : w ++ r ≠ q :: s := by
  have slash : '\\' ≠ q := by
    rintro rfl
    revert quote
    decide
  intro eq
  cases esc with
  | plain _ other => exact other (List.cons.inj eq).1
  | letter _ => exact slash (List.cons.inj eq).1
  | code _ _ => exact slash (List.cons.inj eq).1

/-- What follows a backslash decides which kind of escape it is, and so how far it goes. -/
lemma toldApart (esc : Escaped q c u) (esc' : Escaped q d w) (eq : u ++ r = w ++ s) :
    c = d ∧ r = s := by
  cases esc with
  | plain slash _ =>
    cases esc' with
    | plain _ _ => exact List.cons.inj eq
    | letter _ => exact absurd (List.cons.inj eq).1 slash
    | code _ _ => exact absurd (List.cons.inj eq).1 slash
  | @letter k mem =>
    cases esc' with
    | plain slash _ => exact absurd (List.cons.inj eq).1.symm slash
    | @letter k' mem' =>
      obtain ⟨mark, left⟩ := List.cons.inj (List.cons.inj eq).2
      cases letters_inj k mem k' mem' mark
      exact ⟨rfl, left⟩
    | @code _ k' mem' _ =>
      exact absurd (List.cons.inj (List.cons.inj eq).2).1 (letters_ne_codeMarks k mem k' mem')
  | @code _ k mem lt =>
    cases esc' with
    | plain slash _ => exact absurd (List.cons.inj eq).1.symm slash
    | @letter k' mem' =>
      exact absurd (List.cons.inj (List.cons.inj eq).2).1.symm (letters_ne_codeMarks k' mem' k mem)
    | @code _ k' mem' lt' =>
      obtain ⟨mark, left⟩ := List.cons.inj (List.cons.inj eq).2
      cases codeMarks_inj k mem k' mem' mark
      have len : (hexDigits k.2 c.toNat).length = (hexDigits k.2 d.toNat).length := by
        rw [length_hexDigits, length_hexDigits]
      obtain ⟨digits, left⟩ := List.append_inj left len
      exact ⟨Char.toNat_inj.1 (hexDigits_inj lt lt' digits), left⟩

end Escaped

/-! ## Quoted texts -/

/-- Between two quotes the text is seen, and where the closing quote stands. -/
lemma toldApart_flatMap {cs ds : List Char} (quote : q ∈ quotes)
    (eq : cs.flatMap (escapeChar q) ++ q :: r = ds.flatMap (escapeChar q) ++ q :: s) :
    cs = ds ∧ r = s := by
  induction cs generalizing ds with
  | nil =>
    cases ds with
    | nil => exact ⟨rfl, (List.cons.inj eq).2⟩
    | cons d ds =>
      rw [List.flatMap_cons, List.append_assoc] at eq
      exact absurd eq.symm ((escaped_escapeChar quote d).ne_quote quote)
  | cons c cs ih =>
    cases ds with
    | nil =>
      rw [List.flatMap_cons, List.append_assoc] at eq
      exact absurd eq ((escaped_escapeChar quote c).ne_quote quote)
    | cons d ds =>
      rw [List.flatMap_cons, List.flatMap_cons, List.append_assoc, List.append_assoc] at eq
      obtain ⟨rfl, left⟩ := (escaped_escapeChar quote c).toldApart (escaped_escapeChar quote d) eq
      obtain ⟨rfl, same⟩ := ih left
      exact ⟨rfl, same⟩

/-- The quote in use is a quote. -/
lemma quoteFor_mem (cs : List Char) : quoteFor cs ∈ quotes := by
  unfold quoteFor
  split
  · decide
  · decide

/-- Quoted texts can be told apart. -/
lemma toldApart_quoteChars (cs ds : List Char) : ToldApart quoteChars cs ds := by
  intro r s eq
  simp only [quoteChars, List.cons_append, List.append_assoc, List.nil_append] at eq
  obtain ⟨same, left⟩ := List.cons.inj eq
  rw [← same] at left
  exact toldApart_flatMap (quoteFor_mem cs) left

end RecordLambda.Text
