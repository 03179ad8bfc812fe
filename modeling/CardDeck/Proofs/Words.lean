import CardDeck.Proofs.LineEnds
import CardDeck.Proofs.Writing.Spelling

/-! # The words of a deck

In either way of reading, what is read off a deck is the end of a line, a mark or a word that does
not start with a marker: `Decoder.isRead_of_tokens`. So a token that is a key or an identifier has a
word for its text that could be written as a key or as an item of a list
(`Token.IsRead.isKey`, `Token.IsRead.isItem`). -/

namespace CardDeck

theorem Cursor.isRead_of_tokensFrom {v : Vocabulary} {cur : Cursor} {found : List Token}
    (h : tokensFrom v cur [] = .ok found) : ∀ t ∈ found, t.IsRead v ∧ t.isStray = false := by
  induction cur using round_induction v generalizing found with
  | nil index p =>
    rw [tokensFrom_nil] at h
    split at h
    · rw [← Except.ok.inj h, List.forall_mem_singleton]
      exact ⟨.endOfLine p, Token.isStray_endOfLine p⟩
    · cases h
  | refuses cur fault hrefuses =>
    rw [hrefuses.tokensFrom_eq] at h
    cases h
  | moves cur token next hmoves ih =>
    obtain ⟨behind, hnext, rfl⟩ := hmoves.exists_of_tokensFrom_eq_ok h
    exact List.forall_mem_append.2 ⟨hmoves.isRead, ih hnext⟩

theorem Decoder.isRead_of_tokens {d : Decoder} {text : List Char} {found : List Token}
    (h : d.tokens text = .ok found) :
    ∀ t ∈ found, t.IsRead d.vocabulary ∧ t.isStray = false := by
  obtain ⟨v, raw⟩ := d
  cases raw with
  | true => exact Cursor.isRead_of_tokensFrom (h : Cursor.tokens v text = .ok found)
  | false =>
    obtain ⟨hwidth, -⟩ := layout_of_tokens_joined h
    obtain ⟨-, hstray, rfl⟩ := (tokens_eq_ok_iff hwidth).1 h
    exact forall_mem_reading
      (fun t ht => ⟨Reading.isRead_of_mem_ofCards ht, hstray t (List.mem_append_left _ ht)⟩)
      ⟨.endOfLine _, Token.isStray_endOfLine _⟩

namespace Token

open Writing

variable {v : Vocabulary} {t : Token}

/-- What is neither the end of a line nor a mark is a word, and it is the word that its kind goes
by. -/
theorem IsRead.isLexable (h : t.IsRead v) (hstray : t.isStray = false)
    (hk : t.kind ∉ [.endOfLine, .equals, .comma, .openParen, .closeParen]) :
    IsLexable t.text ∧ v.classify t.text t.position.column = t.kind := by
  cases h with
  | endOfLine p => exact absurd List.mem_cons_self hk
  | @mark c kind hmark p =>
    unfold punctuation? at hmark
    split at hmark <;> cases hmark <;> simp at hk
  | @word text hne hword p =>
    refine ⟨⟨?_, ?_, ?_⟩, rfl⟩
    · rwa [Vocabulary.text_word, String.toList_ofList]
    · rwa [Vocabulary.text_word, String.toList_ofList]
    · simpa [isStray] using hstray

theorem IsRead.isKey (h : t.IsRead v) (hstray : t.isStray = false) (hk : t.kind = .key) :
    IsKey v t.text := by
  obtain ⟨hword, hclassify⟩ := h.isLexable hstray (by simp [hk])
  obtain ⟨hheader, hkey⟩ := Vocabulary.classify_eq_key_iff.1 (hclassify.trans hk)
  exact ⟨hword, hkey, hheader⟩

theorem IsRead.isItem (h : t.IsRead v) (hstray : t.isStray = false) (hk : t.kind = .identifier) :
    IsItem v t.text := by
  obtain ⟨hword, hclassify⟩ := h.isLexable hstray (by simp [hk])
  obtain ⟨hheader, hkey, hdirective, -, -⟩ :=
    Vocabulary.classify_eq_identifier_iff.1 (hclassify.trans hk)
  exact ⟨hword, hkey, hheader, hdirective⟩

end Token

end CardDeck
