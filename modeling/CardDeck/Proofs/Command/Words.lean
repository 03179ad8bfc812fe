import Mathlib.Data.List.Basic
import Mathlib.Data.List.TakeWhile
import CardDeck.Command.Arguments

/-! # The words of a command line

Which words are switches and which are operands, told apart from the reader of arguments. Every word
is read as what it is: `Argument.ofText_cases` says what the reader can make of a word,
`Argument.ofText_of_spells` and `Argument.ofText_of_isOperand` what it makes of those that mean
something. -/

namespace CardDeck.Command

/-! ### Words -/

/-- A text is the beginning of the name of one switch, and of no other. -/
def Names (text : List Char) (s : Switch) : Prop :=
  text <+: s.long ∧ ∀ other : Switch, text <+: other.long → other = s

/-- An equals sign behind a letter sets off the value that belongs to it. -/
def Conventions.SetsOff (c : Conventions) (first : Bool) : Prop :=
  first = true ∨ c.looseEquals = false

/-- The letters behind a dash, or some of those behind the first one: switches without a value, and
then there may be one with a value. The value is attached to it, or has yet to come. -/
inductive Letters (c : Conventions) : Bool → List Char → List Act → Option Switch → Prop
  | flag {first : Bool} {l : Char} {s : Switch} (hl : Switch.ofLetter? l = some s)
      (hs : s.takesValue = false) : Letters c first [l] [.flag s] none
  | awaits {first : Bool} {l : Char} {s : Switch} (hl : Switch.ofLetter? l = some s)
      (hs : s.takesValue) : Letters c first [l] [] (some s)
  | value {first : Bool} {l : Char} {s : Switch} {text : List Char}
      (hl : Switch.ofLetter? l = some s) (hs : s.takesValue) (htext : text ≠ [])
      (hequals : c.SetsOff first → text.head? ≠ some '=') :
      Letters c first (l :: text) [.value s (c.attached text)] none
  | assigned {first : Bool} {l : Char} {s : Switch} {text : List Char}
      (hl : Switch.ofLetter? l = some s) (hs : s.takesValue) (hequals : c.SetsOff first) :
      Letters c first (l :: '=' :: text) [.value s (c.attached text)] none
  | next {first : Bool} {l : Char} {s : Switch} {letters : List Char} {acts : List Act}
      {s? : Option Switch} (hl : Switch.ofLetter? l = some s) (hs : s.takesValue = false)
      (h : Letters c false letters acts s?) : Letters c first (l :: letters) (.flag s :: acts) s?
  | loose {l : Char} {s : Switch} {letters : List Char} {acts : List Act} {s? : Option Switch}
      (hl : Switch.ofLetter? l = some s) (hs : s.takesValue = false) (hc : c.looseEquals)
      (h : Letters c false letters acts s?) :
      Letters c true (l :: '=' :: letters) (.flag s :: acts) s?

/-- A word is a switch or several, and there may be one whose value has yet to come. -/
inductive Spells (c : Conventions) : List Char → List Act → Option Switch → Prop
  | flag {text : List Char} {s : Switch} (h : Names text s) (hs : s.takesValue = false) :
      Spells c text [.flag s] none
  | awaits {text : List Char} {s : Switch} (h : Names text s) (hs : s.takesValue) :
      Spells c text [] (some s)
  | value {name text : List Char} {s : Switch} (h : Names name s) (hs : s.takesValue) :
      Spells c (name ++ '=' :: text) [.value s (c.attached text)] none
  | letters {letters : List Char} {acts : List Act} {s? : Option Switch}
      (h : Letters c true letters acts s?) : Spells c ('-' :: letters) acts s?

/-- Digits, or a point with digits behind it. -/
inductive IsDecimal : List Char → Prop
  | whole {digits : List Char} (hne : digits ≠ []) (hdigits : ∀ d ∈ digits, Text.isDecimalDigit d) :
      IsDecimal digits
  | point {digits places : List Char} (hdigits : ∀ d ∈ digits, Text.isDecimalDigit d)
      (hne : places ≠ []) (hplaces : ∀ d ∈ places, Text.isDecimalDigit d) :
      IsDecimal (digits ++ '.' :: places)

/-- A dash and a decimal number, which may end in a newline. -/
inductive IsNegativeNumber : List Char → Prop
  | number {text : List Char} (h : IsDecimal text) : IsNegativeNumber ('-' :: text)
  | newline {text : List Char} (h : IsDecimal text) : IsNegativeNumber ('-' :: (text ++ ['\n']))

/-- What starts with a dash and names no switch: the letter behind the dash is none of a switch, or
what is in front of an equals sign is the beginning of no name. -/
inductive NamesNone : List Char → Prop
  | letter {l : Char} {letters : List Char} (hdash : l ≠ '-') (hl : Switch.ofLetter? l = none) :
      NamesNone ('-' :: l :: letters)
  | long {text : List Char}
      (h : ∀ s : Switch, ¬('-' :: '-' :: text).takeWhile (· ≠ '=') <+: s.long) :
      NamesNone ('-' :: '-' :: text)

/-- A word that is no switch: a source, or a value that follows its switch. It has no dash in front,
unless it is nothing else, or it is a number or has a blank in it. -/
inductive IsOperand : List Char → Prop
  | plain {text : List Char} (h : text.head? ≠ some '-') : IsOperand text
  | dash : IsOperand ['-']
  | number {text : List Char} (hnone : NamesNone text) (h : IsNegativeNumber text) : IsOperand text
  | spaced {text : List Char} (hnone : NamesNone text) (h : ' ' ∈ text) : IsOperand text

/-! ### Names -/

variable {c : Conventions} {text name letters : List Char} {s : Switch} {s? : Option Switch}
  {first : Bool} {l : Char} {acts before : List Act}

namespace Switch

theorem mem_all (s : Switch) : s ∈ all := by
  cases s <;> decide

/-- No name is the beginning of another. -/
theorem eq_of_long_beginning {s t : Switch} (h : s.long <+: t.long) : s = t := by
  revert h
  cases s <;> cases t <;> decide

theorem filter_all_eq_singleton_iff {p : Switch → Bool} :
    all.filter p = [s] ↔ p s ∧ ∀ t, p t → t = s := by
  constructor
  · intro h
    have hmem {t : Switch} : p t ↔ t = s := by
      rw [← List.mem_singleton (a := t), ← h, List.mem_filter]
      simp [mem_all]
    exact ⟨hmem.2 rfl, fun t => hmem.1⟩
  · rintro ⟨hs, h⟩
    have hp : p = (decide <| · = s) := by
      funext t
      by_cases ht : t = s
      · simp [ht, hs]
      · simpa [ht] using mt (h t) ht
    rw [hp]
    cases s <;> rfl

theorem named_eq_singleton_iff : named name = [s] ↔ Names name s := by
  rw [named]
  split
  · next t ht =>
    obtain rfl : t.long = name := by simpa using List.find?_some ht
    refine ⟨?_, fun h => congrArg ([·]) (h.2 t (List.prefix_refl _))⟩
    rintro ⟨⟩
    exact ⟨List.prefix_refl _, fun other h => (eq_of_long_beginning h).symm⟩
  · simp only [filter_all_eq_singleton_iff, List.isPrefixOf_iff_prefix, Names]

theorem named_eq_nil_iff : named name = [] ↔ ∀ s : Switch, ¬name <+: s.long := by
  rw [named]
  split
  · next t ht =>
    obtain rfl : t.long = name := by simpa using List.find?_some ht
    exact ⟨fun h => absurd h (List.cons_ne_nil _ _), fun h => absurd (List.prefix_refl _) (h t)⟩
  · simp [List.filter_eq_nil_iff, mem_all]

end Switch

namespace Names

theorem not_mem (h : Names name s) : '=' ∉ name := by
  intro hmem
  have hlong : '=' ∉ s.long := by cases s <;> decide
  exact hlong (h.1.subset hmem)

/-- Two dashes are the beginning of every name, so there is more to one that is the beginning of
only one. -/
theorem exists_eq (h : Names name s) : ∃ rest, rest ≠ [] ∧ name = '-' :: '-' :: rest := by
  have hdashes (s : Switch) : ['-', '-'] <+: s.long := by cases s <;> decide
  rcases Nat.le_total name.length 2 with hlength | hlength
  · have hall (other : Switch) : name <+: other.long :=
      (List.prefix_of_prefix_length_le h.1 (hdashes s) hlength).trans (hdashes other)
    cases (h.2 .help (hall _)).trans (h.2 .raw (hall _)).symm
  · obtain ⟨rest, rfl⟩ := List.prefix_of_prefix_length_le (hdashes s) h.1 hlength
    refine ⟨rest, ?_, rfl⟩
    rintro rfl
    cases (h.2 .help (hdashes _)).trans (h.2 .raw (hdashes _)).symm

end Names

namespace Letters

theorem exists_cons (h : Letters c first letters acts s?) :
    ∃ l rest s, letters = l :: rest ∧ Switch.ofLetter? l = some s := by
  cases h with
  | flag hl | awaits hl | value hl | assigned hl | next hl | loose hl => exact ⟨_, _, _, rfl, hl⟩

theorem not_equals (h : Letters c first ('=' :: letters) acts s?) : False := by
  obtain ⟨l, rest, s, heq, hl⟩ := h.exists_cons
  cases heq
  cases hl

/-- Only an equals sign makes the first letter unlike the others. -/
theorem first_iff (hequals : letters.head? ≠ some '=') :
    Letters c true (l :: letters) acts s? ↔ Letters c false (l :: letters) acts s? := by
  constructor
  · intro h
    cases h with
    | flag hl hs => exact .flag hl hs
    | awaits hl hs => exact .awaits hl hs
    | value hl hs htext _ => exact .value hl hs htext fun _ => hequals
    | assigned | loose => exact absurd rfl hequals
    | next hl hs h => exact .next hl hs h
  · intro h
    cases h with
    | flag hl hs => exact .flag hl hs
    | awaits hl hs => exact .awaits hl hs
    | value hl hs htext _ => exact .value hl hs htext fun _ => hequals
    | assigned => exact absurd rfl hequals
    | next hl hs h => exact .next hl hs h

end Letters

/-! ### Negative numbers -/

theorem isDecimal_iff : Argument.isDecimal text ↔ IsDecimal text := by
  constructor
  · intro h
    have hdigits : ∀ d ∈ text.takeWhile Text.isDecimalDigit, Text.isDecimalDigit d :=
      fun d => List.mem_takeWhile_imp
    have htext := @List.takeWhile_append_dropWhile _ Text.isDecimalDigit text
    rw [Argument.isDecimal] at h
    split at h
    · next hrest =>
      rw [hrest, List.append_nil] at htext
      rw [htext] at hdigits
      exact .whole (by simpa using h) hdigits
    · next places hrest =>
      rw [hrest] at htext
      rw [← htext]
      simp only [Bool.and_eq_true, decide_eq_true_eq, List.all_eq_true] at h
      exact .point hdigits h.1 h.2
    · cases h
  · rintro (⟨hne, hdigits⟩ | ⟨hdigits, hne, hplaces⟩)
    · have hrest : text.dropWhile Text.isDecimalDigit = [] := List.dropWhile_eq_nil_iff.2 hdigits
      simpa [Argument.isDecimal, hrest] using hne
    · have hpoint : Text.isDecimalDigit '.' = false := by decide
      simpa [Argument.isDecimal, List.dropWhile_append_of_pos hdigits, hpoint] using ⟨hne, hplaces⟩

theorem IsDecimal.getLast?_ne (h : IsDecimal text) : text.getLast? ≠ some '\n' := by
  have hnewline : ¬Text.isDecimalDigit '\n' := by decide
  intro hlast
  cases h with
  | whole hne hdigits => exact hnewline (hdigits _ (List.mem_of_getLast? hlast))
  | point hdigits hne hplaces =>
    rw [List.getLast?_append_of_ne_nil _ (List.cons_ne_nil _ _), List.getLast?_cons_of_ne_nil hne]
      at hlast
    exact hnewline (hplaces _ (List.mem_of_getLast? hlast))

theorem isNegativeNumber_iff : Argument.isNegativeNumber text ↔ IsNegativeNumber text := by
  constructor
  · intro h
    rw [Argument.isNegativeNumber.eq_def] at h
    split at h
    · split at h
      · next hlast =>
        rw [← List.dropLast_append_getLast? _ hlast]
        exact .newline (isDecimal_iff.1 h)
      · exact .number (isDecimal_iff.1 h)
    · cases h
  · rintro (h | h)
    · rw [Argument.isNegativeNumber, if_neg h.getLast?_ne]
      exact isDecimal_iff.2 h
    · rw [Argument.isNegativeNumber, List.getLast?_concat, if_pos rfl, List.dropLast_concat]
      exact isDecimal_iff.2 h

/-! ### Arguments -/

namespace Argument

/-- An argument that consists of these switches. -/
def ofActs (acts : List Act) : Option Switch → Argument
  | none => .acts acts
  | some s => .pending acts s

/-- If an argument consists of switches, they are as told. -/
def Satisfies (P : List Act → Option Switch → Prop) : Argument → Prop
  | .acts acts => P acts none
  | .pending acts s => P acts (some s)
  | .operand _ | .marker => False
  | .unknown _ | .surplus | .ambiguous => True

theorem Satisfies.imp {P Q : List Act → Option Switch → Prop} {a : Argument} (h : a.Satisfies P)
    (hPQ : ∀ acts s?, P acts s? → Q acts s?) : a.Satisfies Q := by
  cases a with
  | acts acts => exact hPQ acts none h
  | pending acts s => exact hPQ acts (some s) h
  | operand text | marker => exact h.elim
  | unknown acts | surplus | ambiguous => trivial

theorem cluster_satisfies (hl : Switch.ofLetter? l = some s) :
    (cluster c before s letters).Satisfies fun acts s? =>
      ∃ more, acts = before ++ more ∧ Letters c false (l :: letters) more s? := by
  induction letters generalizing before s l with
  | nil =>
    rw [cluster, bare]
    split
    · next hs => exact ⟨[], (List.append_nil before).symm, .awaits hl hs⟩
    · next hs => exact ⟨[.flag s], rfl, .flag hl (by simpa using hs)⟩
  | cons m letters ih =>
    rw [cluster]
    split
    · next hs =>
      refine ⟨_, rfl, ?_⟩
      by_cases hm : m = '=' ∧ ¬c.looseEquals
      · obtain ⟨rfl, hc⟩ := hm
        rw [if_pos ⟨rfl, hc⟩]
        exact .assigned hl hs (.inr (by simpa using hc))
      · rw [if_neg hm]
        refine .value hl hs (List.cons_ne_nil _ _) ?_
        rintro (hfirst | hc) heq
        · cases hfirst
        · exact hm ⟨Option.some.inj heq, by simp [hc]⟩
    · next hs =>
      split
      · next next hnext =>
        refine (ih hnext).imp ?_
        rintro acts s? ⟨more, rfl, h⟩
        exact ⟨.flag s :: more, by simp, .next hl (by simpa using hs) h⟩
      · split <;> trivial

theorem cluster_eq (h : Letters c false (l :: letters) acts s?) :
    ∃ s, Switch.ofLetter? l = some s ∧
      ∀ before, cluster c before s letters = ofActs (before ++ acts) s? := by
  induction letters generalizing l acts with
  | nil =>
    cases h with
    | flag hl hs => exact ⟨_, hl, fun before => by simp [cluster, bare, hs, ofActs]⟩
    | awaits hl hs => exact ⟨_, hl, fun before => by simp [cluster, bare, hs, ofActs]⟩
    | value hl hs htext => exact absurd rfl htext
    | next hl hs h => cases h
  | cons m letters ih =>
    cases h with
    | value hl hs htext hequals =>
      refine ⟨_, hl, fun before => ?_⟩
      have hm : ¬(m = '=' ∧ ¬c.looseEquals) := by
        rintro ⟨rfl, hc⟩
        exact hequals (.inr (by simpa using hc)) rfl
      rw [cluster, if_pos hs, if_neg hm]
      rfl
    | assigned hl hs hequals =>
      refine ⟨_, hl, fun before => ?_⟩
      have hc : ¬c.looseEquals := by
        rcases hequals with hfirst | hc
        · cases hfirst
        · simp [hc]
      rw [cluster, if_pos hs, if_pos ⟨rfl, hc⟩]
      rfl
    | @next _ _ s _ _ _ hl hs h =>
      obtain ⟨t, ht, heq⟩ := ih h
      refine ⟨_, hl, fun before => ?_⟩
      rw [cluster, if_neg (by simp [hs])]
      simp only [ht, heq, List.append_assoc, List.singleton_append]

theorem short_eq_cluster (hequals : letters.head? ≠ some '=') :
    short c s letters = cluster c [] s letters := by
  rw [short.eq_def]
  split
  · exact absurd rfl hequals
  · rfl

theorem short_satisfies (hl : Switch.ofLetter? l = some s) :
    (short c s letters).Satisfies (Letters c true (l :: letters)) := by
  by_cases hequals : letters.head? = some '='
  · obtain ⟨letters, rfl⟩ := List.head?_eq_some_iff.1 hequals
    rw [short]
    split
    · next hloose =>
      refine (cluster_satisfies hl).imp ?_
      rintro acts s? ⟨more, rfl, h⟩
      cases h with
      | flag | awaits => exact absurd rfl hloose.2
      | value hl hs => exact .assigned hl hs (.inl rfl)
      | assigned hl hs hsets =>
        obtain hfirst | hc := hsets
        · cases hfirst
        · exact absurd hloose.1 (by simp [hc])
      | next hl hs h => exact .loose hl hs hloose.1 h
    · rw [assigned]
      split
      · next hs => exact .assigned hl hs (.inl rfl)
      · trivial
  · rw [short_eq_cluster hequals]
    refine (cluster_satisfies hl).imp ?_
    rintro acts s? ⟨more, rfl, h⟩
    exact (Letters.first_iff hequals).2 h

theorem short_eq (h : Letters c true (l :: letters) acts s?) :
    ∃ s, Switch.ofLetter? l = some s ∧ short c s letters = ofActs acts s? := by
  by_cases hequals : letters.head? = some '='
  · obtain ⟨letters, rfl⟩ := List.head?_eq_some_iff.1 hequals
    cases h with
    | value hl hs htext hsets => exact absurd rfl (hsets (.inl rfl))
    | next hl hs h => exact h.not_equals.elim
    | @assigned _ _ s _ hl hs =>
      refine ⟨s, hl, ?_⟩
      rw [short]
      split
      · next hloose =>
        obtain ⟨m, rest, rfl⟩ := List.exists_cons_of_ne_nil hloose.2
        rw [cluster, if_pos hs, if_neg fun hm => hm.2 hloose.1]
        rfl
      · rw [assigned, if_pos hs]
        rfl
    | @loose _ s _ acts s? hl hs hc h =>
      obtain ⟨m, rest, t, rfl, ht⟩ := h.exists_cons
      obtain ⟨t', ht', heq⟩ := cluster_eq h
      obtain rfl := Option.some.inj (ht.symm.trans ht')
      refine ⟨s, hl, ?_⟩
      rw [short, if_pos ⟨hc, List.cons_ne_nil _ _⟩, cluster, if_neg (by simp [hs])]
      simp only [ht]
      exact heq [.flag s]
  · obtain ⟨s, hl, heq⟩ := cluster_eq ((Letters.first_iff hequals).1 h)
    exact ⟨s, hl, (short_eq_cluster hequals).trans (heq [])⟩

theorem other_satisfies_or (c : Conventions) (hnone : NamesNone text) :
    other text = .operand (.ofList text) ∧ IsOperand text ∨
      (other text).Satisfies (Spells c text) := by
  rw [other]
  split
  · next h =>
    simp only [Bool.or_eq_true, List.contains_iff_mem] at h
    rcases h with h | h
    · exact .inl ⟨rfl, .number hnone (isNegativeNumber_iff.1 h)⟩
    · exact .inl ⟨rfl, .spaced hnone h⟩
  · exact .inr trivial

theorem long_satisfies_or (c : Conventions) (text : List Char) :
    let word := '-' :: '-' :: text
    long c word = .operand (.ofList word) ∧ IsOperand word ∨
      (long c word).Satisfies (Spells c word) := by
  intro word
  have hword := @List.takeWhile_append_dropWhile _ (· ≠ '=') word
  rw [long]
  split
  · next _ hnamed => exact other_satisfies_or c (.long (Switch.named_eq_nil_iff.1 hnamed))
  · next s hnamed hrest =>
    rw [hrest, List.append_nil] at hword
    rw [hword] at hnamed
    have hname := Switch.named_eq_singleton_iff.1 hnamed
    rw [bare]
    split
    · next hs => exact .inr (.awaits hname hs)
    · next hs => exact .inr (.flag hname (by simpa using hs))
  · next s e value hnamed hrest =>
    have hname := Switch.named_eq_singleton_iff.1 hnamed
    rw [hrest] at hword
    have he : e = '=' := by
      have hhead := List.head?_dropWhile_not (· ≠ '=') word
      rw [hrest] at hhead
      simpa using hhead
    rw [assigned]
    split
    · next hs =>
      rw [← hword, he]
      exact .inr (.value hname hs)
    · exact .inr trivial
  · exact .inr trivial

/-- Every word is the double dash or an operand, or it is read as switches if as anything. -/
theorem ofText_cases (c : Conventions) (word : String) :
    word = "--" ∧ ofText c word = .marker ∨
      IsOperand word.toList ∧ ofText c word = .operand word ∨
      (ofText c word).Satisfies (Spells c word.toList) := by
  rw [ofText]
  split
  · next h => exact .inl ⟨String.toList_inj.1 h, rfl⟩
  · next rest _ h =>
    rw [h]
    rcases long_satisfies_or c rest with ⟨heq, hoperand⟩ | hsatisfies
    · refine .inr (.inl ⟨hoperand, ?_⟩)
      rw [heq, ← h, String.ofList_toList]
    · exact .inr (.inr hsatisfies)
  · next l rest hmarker hlong h =>
    rw [h]
    split
    · next s hl => exact .inr (.inr ((short_satisfies hl).imp fun _ _ => .letters))
    · next hl =>
      have hdash : l ≠ '-' := by
        rintro rfl
        exact hlong rfl
      have hnone : NamesNone ('-' :: l :: rest) := .letter hdash hl
      rcases other_satisfies_or c hnone with ⟨heq, hoperand⟩ | hsatisfies
      · refine .inr (.inl ⟨hoperand, ?_⟩)
        rw [heq, ← h, String.ofList_toList]
      · exact .inr (.inr hsatisfies)
  · next hmarker hlong hshort =>
    refine .inr (.inl ⟨?_, rfl⟩)
    cases htext : word.toList with
    | nil => exact .plain (by simp)
    | cons a rest =>
      by_cases ha : a = '-'
      · subst ha
        cases rest with
        | nil => exact .dash
        | cons b rest => exact absurd htext (hshort b rest)
      · exact .plain (by simpa using ha)

theorem ofText_eq_long {word : String} {rest : List Char} (hrest : rest ≠ [])
    (h : word.toList = '-' :: '-' :: rest) : ofText c word = long c word.toList := by
  obtain ⟨a, rest, rfl⟩ := List.exists_cons_of_ne_nil hrest
  rw [ofText, h]
  rfl

theorem ofText_dashes : ofText c "--" = .marker := rfl

theorem long_of_names (h : Names name s) : long c name = bare [] s := by
  have hmem : ∀ d ∈ name, decide (d ≠ '=') := fun d hd =>
    decide_eq_true fun heq => h.not_mem (heq ▸ hd)
  have htake : name.takeWhile (· ≠ '=') = name := List.takeWhile_eq_self_iff.2 hmem
  have hdrop : name.dropWhile (· ≠ '=') = [] := List.dropWhile_eq_nil_iff.2 hmem
  rw [long, htake, hdrop, Switch.named_eq_singleton_iff.2 h]

theorem long_of_names_value (h : Names name s) :
    long c (name ++ '=' :: text) = assigned c s text := by
  have hmem : ∀ d ∈ name, decide (d ≠ '=') := fun d hd =>
    decide_eq_true fun heq => h.not_mem (heq ▸ hd)
  have htake : (name ++ '=' :: text).takeWhile (· ≠ '=') = name := by
    rw [List.takeWhile_append_of_pos hmem]
    simp
  have hdrop : (name ++ '=' :: text).dropWhile (· ≠ '=') = '=' :: text := by
    rw [List.dropWhile_append_of_pos hmem]
    simp
  rw [long, htake, hdrop, Switch.named_eq_singleton_iff.2 h]

/-- What names no switch is told by what it looks like. -/
theorem ofText_of_namesNone {word : String} (h : NamesNone word.toList) :
    ofText c word = other word.toList := by
  generalize htext : word.toList = text at h
  cases h with
  | letter hdash hl => simp [ofText, htext, hdash, hl]
  | @long rest hnames =>
    have hrest : rest ≠ [] := by
      rintro rfl
      exact hnames .help (by decide)
    rw [ofText_eq_long hrest htext, htext, long, Switch.named_eq_nil_iff.2 hnames]

theorem other_eq_operand (h : IsNegativeNumber text ∨ ' ' ∈ text) :
    other text = .operand (.ofList text) := by
  rw [other, if_pos]
  simpa [isNegativeNumber_iff] using h

theorem ofText_of_isOperand {word : String} (h : IsOperand word.toList) :
    ofText c word = .operand word := by
  generalize htext : word.toList = text at h
  cases h with
  | plain hhead =>
    rw [ofText, htext]
    split
    any_goals exact absurd rfl hhead
    rfl
  | dash => simp [ofText, htext]
  | number hnone h =>
    subst htext
    rw [ofText_of_namesNone hnone, other_eq_operand (.inl h), String.ofList_toList]
  | spaced hnone h =>
    subst htext
    rw [ofText_of_namesNone hnone, other_eq_operand (.inr h), String.ofList_toList]

theorem ofText_of_spells {word : String} (h : Spells c word.toList acts s?) :
    ofText c word = ofActs acts s? := by
  generalize htext : word.toList = text at h
  cases h with
  | flag h hs =>
    obtain ⟨rest, hrest, heq⟩ := h.exists_eq
    rw [ofText_eq_long hrest (htext.trans heq), htext, long_of_names h, bare, if_neg (by simp [hs])]
    rfl
  | awaits h hs =>
    obtain ⟨rest, hrest, heq⟩ := h.exists_eq
    rw [ofText_eq_long hrest (htext.trans heq), htext, long_of_names h, bare, if_pos hs]
    rfl
  | @value name text s h hs =>
    obtain ⟨rest, -, rfl⟩ := h.exists_eq
    have hrest : rest ++ '=' :: text ≠ [] := List.append_ne_nil_of_right_ne_nil _ (by simp)
    rw [ofText_eq_long hrest htext, htext, long_of_names_value h, assigned, if_pos hs]
    rfl
  | letters h =>
    obtain ⟨l, rest, s, rfl, hl⟩ := h.exists_cons
    obtain ⟨s', hl', heq⟩ := short_eq h
    obtain rfl := Option.some.inj (hl.symm.trans hl')
    have hdash : l ≠ '-' := by
      rintro rfl
      cases hl
    rw [← heq]
    simp [ofText, htext, hdash, hl]

end Argument

/-! ### Words that are not switches -/

variable {word : String}

theorem IsOperand.not_names (h : IsOperand word.toList) : ¬Names word.toList s := by
  intro hnames
  have hoperand := Argument.ofText_of_isOperand (c := .current) h
  cases hs : s.takesValue with
  | false =>
    rw [Argument.ofText_of_spells (.flag hnames hs)] at hoperand
    cases hoperand
  | true =>
    rw [Argument.ofText_of_spells (.awaits hnames hs)] at hoperand
    cases hoperand

theorem IsOperand.ne_dashes (h : IsOperand word.toList) : word ≠ "--" := by
  rintro rfl
  cases (Argument.ofText_of_isOperand h).symm.trans (Argument.ofText_dashes (c := .current))

theorem Spells.ne_dashes {s? : Option Switch} (h : Spells c word.toList acts s?) : word ≠ "--" := by
  rintro rfl
  cases s? <;> cases (Argument.ofText_of_spells h).symm.trans Argument.ofText_dashes

/-! ### Values that are dropped -/

theorem dropsDashes_of_attached (h : c.attached text = none) : c.dropsDashes := by
  rw [Conventions.attached] at h
  split at h
  · next hdrops => exact hdrops.1
  · cases h

theorem Letters.dropsDashes_of_mem (h : Letters c first letters acts s?)
    (hmem : .value s none ∈ acts) : c.dropsDashes := by
  induction h with
  | flag => cases List.mem_singleton.1 hmem
  | awaits => cases hmem
  | value | assigned =>
    exact dropsDashes_of_attached (Act.value.inj (List.mem_singleton.1 hmem)).2.symm
  | next _ _ _ ih | loose _ _ _ _ ih =>
    rcases List.mem_cons.1 hmem with heq | hmem
    · cases heq
    · exact ih hmem

theorem Spells.dropsDashes_of_mem (h : Spells c text acts s?) (hmem : .value s none ∈ acts) :
    c.dropsDashes := by
  cases h with
  | flag => cases List.mem_singleton.1 hmem
  | awaits => cases hmem
  | value => exact dropsDashes_of_attached (Act.value.inj (List.mem_singleton.1 hmem)).2.symm
  | letters h => exact h.dropsDashes_of_mem hmem

/-! ### The raw switch -/

theorem names_raw_iff :
    Names text .raw ↔ "--r".toList <+: text ∧ text <+: "--raw-lexer".toList := by
  constructor
  · intro h
    obtain ⟨rest, hrest, rfl⟩ := h.exists_eq
    obtain ⟨a, rest, rfl⟩ := List.exists_cons_of_ne_nil hrest
    obtain ⟨behind, hbehind⟩ := h.1
    obtain rfl : a = 'r' := (List.cons.inj (List.cons.inj (List.cons.inj hbehind).2).2).1
    exact ⟨⟨rest, rfl⟩, h.1⟩
  · rintro ⟨hfront, htext⟩
    refine ⟨htext, fun other h => ?_⟩
    have hother := hfront.trans h
    revert hother
    cases other <;> decide

/-- The raw switch has no letter. -/
theorem Letters.raw_not_mem (h : Letters c first letters acts s?) : .flag .raw ∉ acts := by
  have hletter {l : Char} : Switch.ofLetter? l ≠ some .raw := by
    intro hl
    rw [Switch.ofLetter?.eq_def] at hl
    split at hl <;> cases hl
  induction h with
  | flag hl =>
    intro hmem
    cases List.mem_singleton.1 hmem
    exact hletter hl
  | awaits => exact List.not_mem_nil
  | value | assigned =>
    intro hmem
    cases List.mem_singleton.1 hmem
  | next hl _ _ ih | loose hl _ _ _ ih =>
    rintro (_ | ⟨_, hmem⟩)
    · exact hletter hl
    · exact ih hmem

theorem Spells.raw_mem_iff (h : Spells c word.toList acts s?) :
    .flag .raw ∈ acts ↔ Names word.toList .raw := by
  constructor
  · intro hmem
    generalize word.toList = text at h
    cases h with
    | flag h =>
      cases List.mem_singleton.1 hmem
      exact h
    | awaits => cases hmem
    | value => cases List.mem_singleton.1 hmem
    | letters h => exact absurd hmem h.raw_not_mem
  · intro hnames
    have heq := (Argument.ofText_of_spells h).symm.trans
      (Argument.ofText_of_spells (.flag hnames rfl))
    cases s? with
    | none =>
      cases heq
      exact List.mem_cons_self
    | some s => cases heq

end CardDeck.Command
