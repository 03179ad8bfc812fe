import CardDeck.Statement

/-! # Positions by bisection

The search for the span of an offset finds the border between the spans that start at or before the
offset and those that start behind it, wherever the list can be cut in two that way.

`Statement.position?_append_of_lt` and `Statement.position?_append_of_le` say what a further span
does to the positions: nothing before its offset, everything from there on. -/

namespace CardDeck.Statement

theorem spansUpTo_append {front back : List Span} {offset : Int}
    (hfront : ∀ span ∈ front, span.offset ≤ offset)
    (hback : ∀ span ∈ back, offset < span.offset) {low high : Nat}
    (hlow : low ≤ front.length) (hhigh : front.length ≤ high)
    (hbound : high ≤ (front ++ back).length) :
    spansUpTo (front ++ back) offset low high = front.length := by
  fun_induction spansUpTo (front ++ back) offset low high with
  | case1 low high hlt middle hany ih =>
    have hmiddle : front.length ≤ middle := by
      rcases Nat.lt_or_ge middle front.length with h | h
      · rw [List.getElem?_append_left h, List.getElem?_eq_getElem h, Option.any_some,
          decide_eq_true_eq] at hany
        exact absurd (hfront _ (List.getElem_mem h)) (Int.not_le.2 hany)
      · exact h
    exact ih hlow hmiddle (by omega)
  | case2 low high hlt middle hany ih =>
    have hmiddle : middle < front.length := by
      rcases Nat.lt_or_ge middle front.length with h | h
      · exact h
      · have hin : middle < (front ++ back).length := by omega
        have hmem : (front ++ back)[middle] ∈ back := by
          rw [List.getElem_append_right h]
          exact List.getElem_mem _
        rw [List.getElem?_eq_getElem hin, Option.any_some, decide_eq_true_eq] at hany
        exact absurd (hback _ hmem) hany
    exact ih hmiddle hhigh hbound
  | case3 low high hge => omega

theorem span?_append {s : Statement} {front back : List Span} {offset : Int}
    (hs : s.spans = front ++ back) (hne : front ≠ [])
    (hfront : ∀ span ∈ front, span.offset ≤ offset)
    (hback : ∀ span ∈ back, offset < span.offset) : s.span? offset = front.getLast? := by
  have hcount : spansUpTo s.spans offset 0 s.spans.length = front.length := by
    rw [hs]
    exact spansUpTo_append hfront hback (Nat.zero_le _) (by simp) (Nat.le_refl _)
  obtain ⟨n, hn⟩ : ∃ n, front.length = n + 1 :=
    Nat.exists_eq_succ_of_ne_zero (mt List.length_eq_zero_iff.1 hne)
  rw [span?, hcount, hn, List.getLast?_eq_getElem? (l := front), hn, hs]
  exact List.getElem?_append_left (by omega)

/-- Spans in order can be cut at any offset. -/
theorem exists_cut {spans : List Span} (h : spans.Pairwise (·.offset ≤ ·.offset)) (offset : Int) :
    ∃ front back, spans = front ++ back ∧ (∀ span ∈ front, span.offset ≤ offset) ∧
      ∀ span ∈ back, offset < span.offset := by
  induction spans with
  | nil => exact ⟨[], [], rfl, by simp, by simp⟩
  | cons span spans ih =>
    obtain ⟨hspan, hspans⟩ := List.pairwise_cons.1 h
    rcases Int.lt_or_le offset span.offset with hlt | hle
    · refine ⟨[], span :: spans, rfl, by simp, fun other hother => ?_⟩
      rcases List.mem_cons.1 hother with rfl | hother
      · exact hlt
      · exact Int.lt_of_lt_of_le hlt (hspan other hother)
    · obtain ⟨front, back, rfl, hfront, hback⟩ := ih hspans
      refine ⟨span :: front, back, rfl, fun other hother => ?_, hback⟩
      rcases List.mem_cons.1 hother with rfl | hother
      · exact hle
      · exact hfront other hother

variable {s t : Statement} {last : Span} {offset : Int}

/-- A further span leaves the positions before it as they are. -/
theorem position?_append_of_lt (ht : t.spans = s.spans ++ [last])
    (hs : s.spans.Pairwise (·.offset ≤ ·.offset)) (hfirst : ∃ span ∈ s.spans, span.offset ≤ offset)
    (hlast : offset < last.offset) : t.position? offset = s.position? offset := by
  obtain ⟨front, back, heq, hfront, hback⟩ := exists_cut hs offset
  have hne : front ≠ [] := by
    rintro rfl
    obtain ⟨span, hmem, hle⟩ := hfirst
    have hlt := hback span (by simpa [heq] using hmem)
    omega
  have hback' : ∀ span ∈ back ++ [last], offset < span.offset := by
    intro span hmem
    rcases List.mem_append.1 hmem with hmem | hmem
    · exact hback span hmem
    · rw [List.mem_singleton.1 hmem]
      exact hlast
  rw [position?, position?, span?_append heq hne hfront hback,
    span?_append (by rw [ht, heq, List.append_assoc]) hne hfront hback']

/-- From its offset on, a further span gives the positions. -/
theorem position?_append_of_le {front : List Span} (ht : t.spans = front ++ [last])
    (hfront : ∀ span ∈ front, span.offset ≤ last.offset) (hlast : last.offset ≤ offset) :
    t.position? offset = some (last.position.shift (offset - last.offset)) := by
  have hle : ∀ span ∈ front ++ [last], span.offset ≤ offset := by
    intro span hmem
    rcases List.mem_append.1 hmem with hmem | hmem
    · exact Int.le_trans (hfront span hmem) hlast
    · rw [List.mem_singleton.1 hmem]
      exact hlast
  rw [position?, span?_append (ht.trans (List.append_nil _).symm) (by simp) hle (by simp),
    List.getLast?_concat, Option.map_some]

end CardDeck.Statement
