import CardDeck.Proofs.Deck
import CardDeck.Proofs.Writing.Reading

/-! # Decoding undoes writing

The items that a written deck is read as put its segments together again, in whatever turns the leaf
records of different kinds have been written. -/

namespace CardDeck

namespace Writing

open Grammar

variable {v : Vocabulary}

variable {segments : List Segment} {records leaves : List Record} {items : List Item}

theorem mem_attributesOf {r : Record} (h : r ∈ records) :
    r.attributes ∈ attributesOf r.header records :=
  List.mem_map_of_mem (List.mem_filter.2 ⟨h, decide_eq_true rfl⟩)

/-- What can be written of the segments can be written of their records. -/
theorem Arranges.isWritable (h : Arranges segments records)
    (hwritable : ∀ s ∈ segments, IsWritableSegment v s) :
    ∀ r ∈ records, IsWritable v r.attributes := by
  induction h with
  | nil => simp
  | @cons s own leaves records segments hown hattributes hleaves hfields hleft hcross _ ih =>
    obtain ⟨⟨hsegment, hleaf⟩, hwritable⟩ := List.forall_mem_cons.1 hwritable
    rw [← hfields, ← hleft, ← hcross] at hleaf
    intro r hr
    rcases List.mem_cons.1 hr with rfl | hr
    · exact hattributes ▸ hsegment
    · rcases List.mem_append.1 hr with hr | hr
      · have hmem := mem_attributesOf hr
        apply hleaf
        cases hheader : r.header with
        | segm => exact absurd hheader (hleaves r hr)
        | field => simp [hheader ▸ hmem]
        | lchild => simp [hheader ▸ hmem]
        | xdfld => simp [hheader ▸ hmem]
      · exact ih hwritable r hr

theorem orderlyFrom_leaves_append (hleaves : ∀ r ∈ leaves, r.header ≠ .segm)
    (h : OrderlyFrom true items) : OrderlyFrom true (leaves.map Record.item ++ items) := by
  induction leaves with
  | nil => exact h
  | cons r leaves ih =>
    obtain ⟨hr, hleaves⟩ := List.forall_mem_cons.1 hleaves
    refine ⟨fun _ _ _ _ => rfl, ?_⟩
    rw [Record.item, leavesOpen_record hr]
    exact ih hleaves

theorem leaves_append {header : Header} (hleaves : ∀ r ∈ leaves, r.header ≠ .segm) :
    Grammar.leaves header (leaves.map Record.item ++ items) =
      attributesOf header leaves ++ Grammar.leaves header items := by
  induction leaves with
  | nil => rfl
  | cons r leaves ih =>
    obtain ⟨hr, hleaves⟩ := List.forall_mem_cons.1 hleaves
    rw [List.map_cons, List.cons_append, Record.item, leaves_record_cons hr, ih hleaves,
      attributesOf_cons]
    split <;> rfl

theorem segments_leaves_append (hleaves : ∀ r ∈ leaves, r.header ≠ .segm) :
    Grammar.segments (leaves.map Record.item ++ items) = Grammar.segments items := by
  induction leaves with
  | nil => rfl
  | cons r leaves ih =>
    obtain ⟨hr, hleaves⟩ := List.forall_mem_cons.1 hleaves
    rw [List.map_cons, List.cons_append, Record.item, segments_record_cons hr, ih hleaves]

/-- The items that a deck is read as are orderly and say what it was written for. -/
theorem Arranges.segments_eq (h : Arranges segments records)
    (hitems : items = [] ∨ items = [.blank]) :
    (∀ opened, OrderlyFrom opened (records.map Record.item ++ items)) ∧
      (∀ header, Grammar.leaves header (records.map Record.item ++ items) = []) ∧
        Grammar.segments (records.map Record.item ++ items) = segments := by
  induction h with
  | nil =>
    rcases hitems with rfl | rfl
    · exact ⟨fun _ => trivial, fun _ => rfl, rfl⟩
    · exact ⟨fun _ => by simp [OrderlyFrom], fun _ => rfl, rfl⟩
  | @cons s own leaves records segments hown hattributes hleaves hfields hleft hcross _ ih =>
    obtain ⟨horderly, hnone, hsegments⟩ := ih
    have hitem : own.item = .record .segm s.attributes := by rw [Record.item, hown, hattributes]
    rw [List.map_cons, List.map_append, List.cons_append, List.append_assoc, hitem]
    refine ⟨fun opened => ⟨?_, ?_⟩, fun header => leaves_cons_of_isSegment rfl, ?_⟩
    · rintro header attributes h hne
      exact absurd (Item.record.inj h).1.symm hne
    · exact orderlyFrom_leaves_append hleaves (horderly true)
    · rw [Grammar.segments, segments_leaves_append hleaves, hsegments, Grammar.segment]
      simp only [leaves_append hleaves, hnone, List.append_nil, hfields, hleft, hcross]

end Writing

/-- A deck that segments have been written on is read as these segments, in either way. -/
theorem Decoder.segments_text {d : Decoder} {segments : List Segment}
    {records : List Writing.Record} (terminated : Bool)
    (hwritable : ∀ s ∈ segments, Writing.IsWritableSegment d.vocabulary s)
    (harranges : Writing.Arranges segments records)
    (hfit : ∀ r ∈ records, Writing.Fit r.lead r.entries) :
    d.segments (Writing.text terminated (records.flatMap Writing.Record.cards)) = .ok segments := by
  have hwritten : ∀ r ∈ records, r.IsWritten d.vocabulary := fun r hr =>
    ⟨harranges.isWritable hwritable r hr, hfit r hr⟩
  obtain ⟨ts, items, htokens, hkind, hts, hitems⟩ := Writing.tokens_text hwritten terminated
  obtain ⟨horderly, -, hsegments⟩ := harranges.segments_eq hitems
  have hread : Segment.ofTokens ts = .ok segments := by
    rw [Deck.ofTokens_eq_ok_iff_fromBetween, List.takeWhile_eq_self_iff.2 (by simpa using hkind)]
    exact ⟨_, hts, horderly false, hsegments.symm⟩
  rw [Decoder.segments, htokens]
  change (Segment.ofTokens ts).mapError Fault.record = _
  rw [hread]
  rfl

namespace Writing

/-- A segment with its leaf records, which are written on four cards. -/
def parentSegment : Segment where
  attributes := [⟨"NAME", "PARENT"⟩, ⟨"BYTES", "80"⟩]
  fields := [[⟨"NAME", "(" ++ ",".intercalate ["KEY", "SEQ"] ++ ")"⟩]]
  leftChildren := [[⟨"NAME", "CHILD"⟩]]

def parentRecords : List Record :=
  let sequence := List.replicate 8 '0'
  [⟨.segm, [⟨⟨"NAME", "PARENT"⟩, 16, sequence⟩, ⟨⟨"BYTES", "80"⟩, 20, sequence⟩]⟩,
   ⟨.lchild, [⟨⟨"NAME", "CHILD"⟩, 16, sequence⟩]⟩,
   ⟨.field, [⟨⟨"NAME", "(" ++ ",".intercalate ["KEY", "SEQ"] ++ ")"⟩, 16, sequence⟩]⟩]

end Writing

theorem Decoder.segments_text_parentSegment :
    (⟨.standard, true⟩ : Decoder).segments
      (Writing.text true (Writing.parentRecords.flatMap Writing.Record.cards)) =
        .ok [Writing.parentSegment] := by
  have harranges : Writing.Arranges [Writing.parentSegment] Writing.parentRecords :=
    @Writing.Arranges.cons _ _ Writing.parentRecords.tail [] [] rfl rfl (by decide) rfl rfl rfl .nil
  refine segments_text true ?_ harranges (by decide +kernel)
  have hname : Writing.IsKey .standard "NAME" := by decide +kernel
  have hbytes : Writing.IsKey .standard "BYTES" := by decide +kernel
  have hitems : ∀ item ∈ ["KEY", "SEQ"], Writing.IsItem .standard item := by decide +kernel
  have hlist := Writing.IsValue.list (List.cons_ne_nil _ _) hitems
  have hparent : Writing.IsValue .standard "PARENT" :=
    .word (by decide +kernel) (by decide +kernel) (by decide +kernel)
  have heighty : Writing.IsValue .standard "80" :=
    .word (by decide +kernel) (by decide +kernel) (by decide +kernel)
  have hchild : Writing.IsValue .standard "CHILD" :=
    .word (by decide +kernel) (by decide +kernel) (by decide +kernel)
  have hown : Writing.IsWritable .standard Writing.parentSegment.attributes :=
    ⟨by decide, List.forall_mem_cons.2 ⟨⟨hname, hparent⟩,
      List.forall_mem_singleton.2 ⟨hbytes, heighty⟩⟩⟩
  have hfield : Writing.IsWritable .standard
      [⟨"NAME", "(" ++ ",".intercalate ["KEY", "SEQ"] ++ ")"⟩] :=
    ⟨List.cons_ne_nil _ _, List.forall_mem_singleton.2 ⟨hname, hlist⟩⟩
  have hleftChild : Writing.IsWritable .standard [⟨"NAME", "CHILD"⟩] :=
    ⟨List.cons_ne_nil _ _, List.forall_mem_singleton.2 ⟨hname, hchild⟩⟩
  exact List.forall_mem_singleton.2 ⟨hown, List.forall_mem_cons.2 ⟨hfield,
    List.forall_mem_singleton.2 hleftChild⟩⟩

end CardDeck
