import Mathlib.Data.List.Basic
import CardDeck.Proofs.Layout

/-! # Taking texts apart

Texts that are joined by a character that none of them holds can be taken apart again
(`Text.intercalate_inj`), and so can words that are set in columns: padding and trimming change the
blanks of a text and not its words (`Text.words`). -/

namespace CardDeck

/-- A map that tells things of two kinds apart tells lists of them apart. -/
theorem eq_of_map_eq {α β : Type} {P Q : α → Prop} {f : α → β}
    (hf : ∀ a b, P a → Q b → f a = f b → a = b) {as bs : List α} (has : ∀ a ∈ as, P a)
    (hbs : ∀ b ∈ bs, Q b) (h : as.map f = bs.map f) : as = bs := by
  induction as generalizing bs with
  | nil => exact (List.map_eq_nil_iff.1 h.symm).symm
  | cons a as ih =>
    cases bs with
    | nil => cases h
    | cons b bs =>
      obtain ⟨hab, hrest⟩ := List.cons.inj h
      obtain ⟨ha, has⟩ := List.forall_mem_cons.1 has
      obtain ⟨hb, hbs⟩ := List.forall_mem_cons.1 hbs
      rw [hf a b ha hb hab, ih has hbs hrest]

namespace Text

theorem newline_not_mem {text : List Char} (h : ∀ c ∈ text, isBlank c = false) : '\n' ∉ text := by
  intro hmem
  have hnewline : isBlank '\n' := by decide
  rw [h _ hmem] at hnewline
  cases hnewline

/-! ### Joined texts -/

theorem intercalate_inj {c : Char} {as bs : List String} (has : as ≠ []) (hbs : bs ≠ [])
    (hac : ∀ a ∈ as, c ∉ a.toList) (hbc : ∀ b ∈ bs, c ∉ b.toList)
    (h : [c].intercalate (as.map String.toList) = [c].intercalate (bs.map String.toList)) :
    as = bs := by
  have hsplit {texts : List String} (hne : texts ≠ []) (htexts : ∀ t ∈ texts, c ∉ t.toList) :
      ([c].intercalate (texts.map String.toList)).splitOn c = texts.map String.toList :=
    List.splitOn_intercalate c (List.forall_mem_map.2 htexts) (mt List.map_eq_nil_iff.1 hne)
  refine List.map_injective_iff.2 (fun _ _ => String.toList_inj.1) ?_
  rw [← hsplit has hac, h, hsplit hbs hbc]

theorem not_mem_intercalate {c d : Char} {texts : List (List Char)} (hcd : c ≠ d)
    (h : ∀ text ∈ texts, c ∉ text) : c ∉ [d].intercalate texts := by
  induction texts with
  | nil => exact List.not_mem_nil
  | cons text texts ih =>
    obtain ⟨htext, htexts⟩ := List.forall_mem_cons.1 h
    by_cases hne : texts = []
    · rwa [hne, List.intercalate_singleton]
    · rw [List.intercalate_cons_of_ne_nil hne]
      simp [htext, hcd, ih htexts]

/-! ### Words -/

/-- The runs of characters between the blanks of a text. -/
def words (text : List Char) : List (List Char) := (text.splitOnP isBlank).filter (· ≠ [])

/-- A text that is one word. -/
structure IsWord (text : List Char) : Prop where
  ne_nil : text ≠ []
  not_isBlank : ∀ c ∈ text, isBlank c = false

variable {a b blanks text : List Char} {c : Char}

/-- A text may be cut at any blank. -/
theorem words_append_cons (hc : isBlank c) (a b : List Char) :
    words (a ++ c :: b) = words a ++ words b := by
  rw [words, List.splitOnP_append_cons a b hc, List.filter_append]
  rfl

@[simp] theorem words_nil : words [] = [] := by simp [words]

theorem words_cons (hc : isBlank c) (b : List Char) : words (c :: b) = words b :=
  words_append_cons hc [] b

theorem IsWord.words_eq (h : IsWord text) : words text = [text] := by
  rw [words, List.splitOnP_eq_singleton h.not_isBlank, List.filter_cons_of_pos (by simp [h.ne_nil]),
    List.filter_nil]

/-- A text without blanks is its words, of which it has one or none. -/
theorem flatten_words (h : ∀ c ∈ text, isBlank c = false) : (words text).flatten = text := by
  by_cases hne : text = []
  · rw [hne, words_nil, List.flatten_nil]
  · rw [IsWord.words_eq ⟨hne, h⟩, List.flatten_singleton]

theorem words_blanks_append (h : ∀ c ∈ blanks, isBlank c) (b : List Char) :
    words (blanks ++ b) = words b := by
  induction blanks with
  | nil => rfl
  | cons c blanks ih =>
    obtain ⟨hc, hblanks⟩ := List.forall_mem_cons.1 h
    rw [List.cons_append, words_cons hc, ih hblanks]

theorem words_append_blanks (a : List Char) (h : ∀ c ∈ blanks, isBlank c) :
    words (a ++ blanks) = words a := by
  cases blanks with
  | nil => rw [List.append_nil]
  | cons c blanks =>
    obtain ⟨hc, hblanks⟩ := List.forall_mem_cons.1 h
    have hnil := words_blanks_append hblanks []
    rw [List.append_nil, words_nil] at hnil
    rw [words_append_cons hc, hnil, List.append_nil]

theorem words_trimEnd (text : List Char) : words (trimEnd text) = words text := by
  obtain ⟨blanks, hblanks, htext⟩ := Layout.exists_trimEnd_append text
  rw [← words_append_blanks _ hblanks, htext]

theorem isBlank_of_mem_replicate {n : Nat} : ∀ c ∈ List.replicate n ' ', isBlank c := by
  intro c hc
  rw [List.eq_of_mem_replicate hc]
  decide

theorem words_rightpad (n : Nat) (text : List Char) : words (text.rightpad n ' ') = words text :=
  words_append_blanks text isBlank_of_mem_replicate

/-- Padding at both ends leaves what is set together together. -/
theorem words_leftpad_append_rightpad (m n : Nat) (a b : List Char) (c : Char) :
    words (a.leftpad m ' ' ++ c :: b.rightpad n ' ') = words (a ++ c :: b) := by
  have hpadded : a.leftpad m ' ' ++ c :: b.rightpad n ' ' =
      List.replicate (m - a.length) ' ' ++
        ((a ++ c :: b) ++ List.replicate (n - b.length) ' ') := by
    simp [List.leftpad, List.rightpad]
  rw [hpadded, words_blanks_append isBlank_of_mem_replicate,
    words_append_blanks _ isBlank_of_mem_replicate]

end Text

end CardDeck
