import CardDeck.Command
import CardDeck.Proofs.Agreement
import CardDeck.Proofs.Command.Line
import CardDeck.Proofs.Cursor.Step
import CardDeck.Proofs.Defect
import CardDeck.Proofs.Disk

/-! # What a command comes to

A command either fails, for its source or for the deck in it, or it has a text to put somewhere, and
not both. `Command.run_reports` says what the words of its line have to do with it, and what is seen
of it then: a command that fails leaves the disk as it was and ends with its message, and any other
puts its text in one place, unless that place takes no text. -/

namespace CardDeck

/-! ### Decoding -/

namespace Cursor

theorem tokensFrom_ne_untraceable (v : Vocabulary) (cur : Cursor) :
    tokensFrom v cur [] ≠ .error .untraceable := by
  induction cur using round_induction v with
  | nil index p =>
    intro h
    rw [tokensFrom_of_rest_nil _ rfl, finish] at h
    split at h
    · cases h
    · cases h
  | refuses cur fault hrefuses =>
    rw [hrefuses.tokensFrom_eq]
    intro h
    cases hrefuses <;> cases h
  | moves cur token next hmoves ih =>
    intro h
    rw [hmoves.tokensFrom_eq] at h
    cases hnext : tokensFrom v next [] with
    | error fault =>
      rw [hnext] at h ih
      exact ih (congrArg Except.error (Except.error.inj h))
    | ok found =>
      rw [hnext] at h
      cases h

end Cursor

namespace Decoder

/-- Whatever is wrong with the cards of a deck has a place in it. -/
theorem tokens_ne_untraceable (d : Decoder) (text : List Char) :
    d.tokens text ≠ .error .untraceable := by
  obtain ⟨v, raw⟩ := d
  cases raw with
  | true => exact Cursor.tokensFrom_ne_untraceable v _
  | false => exact tokens_joined_ne_untraceable v text

theorem segments_ne_untraceable (d : Decoder) (text : List Char) :
    d.segments text ≠ .error (.card .untraceable) := by
  intro h
  cases htokens : d.tokens text with
  | error fault =>
    rw [segments_of_tokens_eq_error htokens] at h
    cases h
    exact d.tokens_ne_untraceable text htokens
  | ok found =>
    rw [segments_of_tokens htokens] at h
    cases hread : Segment.ofTokens found <;> rw [hread] at h <;> cases h

end Decoder

namespace Command

/-! ### Verdicts -/

variable {host : Host} {o : Options} {disk disk' : Disk} {deck : List Char} {fault : Fault}
  {text : String}

namespace Options

/-- The deck is refused in one of the stages that the format needs, with a fault that has a place in
it. -/
inductive Refuses (o : Options) (deck : List Char) : Fault → Prop
  | tokens {fault : CardFault} (hformat : o.format = .tokens)
      (h : (⟨.standard, o.raw⟩ : Decoder).tokens deck = .error fault)
      (hplace : fault ≠ .untraceable) : Refuses o deck (.card fault)
  | segments {fault : Fault} (hformat : o.format ≠ .tokens)
      (h : (⟨.standard, o.raw⟩ : Decoder).segments deck = .error fault)
      (hplace : fault ≠ .card .untraceable) : Refuses o deck fault

/-- The stages that the format needs come to their end, and this is the text for what they find. -/
inductive Yields (o : Options) (deck : List Char) : String → Prop
  | tokens {found : List Token} (hformat : o.format = .tokens)
      (h : (⟨.standard, o.raw⟩ : Decoder).tokens deck = .ok found) :
      Yields o deck (Listing.ofTokens found)
  | json {segments : List Segment} (hformat : o.format = .json)
      (h : (⟨.standard, o.raw⟩ : Decoder).segments deck = .ok segments) :
      Yields o deck (Listing.jsonOfSegments segments)
  | text {segments : List Segment} (hformat : o.format = .text)
      (h : (⟨.standard, o.raw⟩ : Decoder).segments deck = .ok segments) :
      Yields o deck (Listing.ofSegments segments)

/-- The source cannot be read, or its deck is refused, and this is what there is to say of it. -/
inductive Fails (o : Options) (disk : Disk) : String → Prop
  | unreadable {fault : FileFault} (hread : disk.read (Path.ofText o.source) = .error fault) :
      Fails o disk (fault.message (Path.ofText o.source).text)
  | refused {bytes : List UInt8} {fault : Fault}
      (hread : disk.read (Path.ofText o.source) = .ok bytes)
      (hdeck : o.Refuses (Text.ofFile bytes) fault) :
      Fails o disk (o.source ++ ": " ++ fault.notice.text)

theorem Refuses.render_eq (h : o.Refuses deck fault) : o.render deck = .error fault := by
  cases h with
  | tokens hformat h _ =>
    simp only [render, hformat, decoder, h]
    rfl
  | segments hformat h _ =>
    cases hkind : o.format with
    | tokens => exact absurd hkind hformat
    | json | text =>
      simp only [render, hkind, decoder, h]
      rfl

theorem Yields.render_eq (h : o.Yields deck text) : o.render deck = .ok text := by
  cases h with
  | tokens hformat h | json hformat h | text hformat h =>
    simp only [render, hformat, decoder, h]
    rfl

/-- The segments of a deck are refused with a fault in it, or they are there. -/
theorem refuses_or_segments (deck : List Char) (hformat : o.format ≠ .tokens) :
    (∃ fault, o.Refuses deck fault) ∨
      ∃ segments, (⟨.standard, o.raw⟩ : Decoder).segments deck = .ok segments := by
  cases h : (⟨.standard, o.raw⟩ : Decoder).segments deck with
  | error fault =>
    refine .inl ⟨_, .segments hformat h ?_⟩
    rintro rfl
    exact Decoder.segments_ne_untraceable _ deck h
  | ok segments => exact .inr ⟨segments, rfl⟩

/-- A deck is refused, or there is a text for it. -/
theorem refuses_or_yields (o : Options) (deck : List Char) :
    (∃ fault, o.Refuses deck fault) ∨ ∃ text, o.Yields deck text := by
  cases hformat : o.format with
  | tokens =>
    cases h : (⟨.standard, o.raw⟩ : Decoder).tokens deck with
    | error fault =>
      refine .inl ⟨_, .tokens hformat h ?_⟩
      rintro rfl
      exact Decoder.tokens_ne_untraceable _ deck h
    | ok found => exact .inr ⟨_, .tokens hformat h⟩
  | json =>
    rcases o.refuses_or_segments deck (by simp [hformat]) with hrefuses | ⟨segments, h⟩
    · exact .inl hrefuses
    · exact .inr ⟨_, .json hformat h⟩
  | text =>
    rcases o.refuses_or_segments deck (by simp [hformat]) with hrefuses | ⟨segments, h⟩
    · exact .inl hrefuses
    · exact .inr ⟨_, .text hformat h⟩

/-- A failure is all that is reported, and its message comes last. -/
theorem Fails.exists_report_eq {message : String} (h : o.Fails disk message) :
    ∃ messages, o.report host (disk.read (Path.ofText o.source)) =
      ⟨messages ++ ["error: " ++ message], none⟩ := by
  cases h with
  | unreadable hread =>
    rw [hread]
    exact ⟨[_], rfl⟩
  | refused hread hdeck =>
    rw [hread, report]
    simp only [hdeck.render_eq]
    rw [String.append_assoc]
    exact ⟨_, rfl⟩

/-- A text for the deck is reported. -/
theorem Yields.exists_report_eq {bytes : List UInt8}
    (hread : disk.read (Path.ofText o.source) = .ok bytes) (h : o.Yields (Text.ofFile bytes) text) :
    ∃ messages, o.report host (disk.read (Path.ofText o.source)) = ⟨messages, some text⟩ := by
  rw [hread, report]
  simp only [h.render_eq]
  exact ⟨_, rfl⟩

end Options

/-! ### Runs -/

/-- What a command with a text for the output comes to: the text is printed as a line, or it is the
content of the named file then. Only a file that cannot be written, or whose name is that of none,
does not get the text. -/
inductive Delivers (host : Host) (disk : Disk) (text : String) : Output → Outcome Disk → Prop
  | standard {stderr : String} :
      Delivers host disk text .standard (.responded ⟨0, text ++ "\n", stderr⟩ disk)
  | file {name stderr : String} {disk' : Disk}
      (h : disk.Rewrites disk' (Path.ofText name) text.toUTF8.toList) :
      Delivers host disk text (.file name) (.responded ⟨0, "", stderr⟩ disk')
  | unwritten {name : String} {fault : FileFault} (htakes : ∀ l, ¬disk.Takes (Path.ofText name) l)
      (h : disk.write (Path.ofText name) text.toUTF8.toList = .error fault) :
      Delivers host disk text (.file name) (.unwritten fault)
  | unusable {name : String} (h : (Path.ofText name).isUsable = false) :
      Delivers host disk text (.file name) (.misnamed .unusable)
  | unnamed (h : host.conventions.dropsDashes) :
      Delivers host disk text .unnamed (.misnamed .absent)

variable {line : List String}

theorem linesOf_concat (messages : List String) (message : String) :
    linesOf (messages ++ [message]) = linesOf messages ++ message ++ "\n" := by
  simp [linesOf, String.append_assoc]

/-- A command with options does what follows from its report. -/
theorem run_eq (hline : Request.ofLine host.conventions line = .run o)
    (hsource : (Path.ofText o.source).isUsable) : run disk line host =
      match o.ending (o.report host (disk.read (Path.ofText o.source))) with
      | .respond response => .responded response disk
      | .write path text response =>
        match disk.write path text.toUTF8.toList with
        | .ok disk' => .responded response disk'
        | .error fault => .unwritten fault
      | .misnamed fault => .misnamed fault := by
  have hbind {α β : Type} (x : StateM Disk α) (f : α → StateM Disk β) :
      (x >>= f) disk = f (x disk).1 (x disk).2 := rfl
  rw [run, perform, hline]
  simp only [hsource, if_true]
  rw [StateT.run, hbind, Disk.files_read_eq]
  cases o.ending (o.report host (disk.read (Path.ofText o.source))) with
  | respond response | misnamed fault => rfl
  | write path text response =>
    simp only [hbind, Disk.files_write_eq]
    cases disk.write path text.toUTF8.toList <;> rfl

/-- A text is put where it is to go. -/
theorem delivers_of_report (hline : Request.ofLine host.conventions line = .run o)
    (hsource : (Path.ofText o.source).isUsable) {messages : List String}
    (h : o.report host (disk.read (Path.ofText o.source)) = ⟨messages, some text⟩) :
    Delivers host disk text o.output (run disk line host) := by
  have hasks := Request.ofLine_eq_run_iff.1 hline
  rw [run_eq hline hsource, h, Options.ending]
  cases houtput : o.output with
  | standard => exact .standard
  | unnamed => exact .unnamed (hasks.dropsDashes houtput)
  | file name =>
    cases hname : (Path.ofText name).isUsable with
    | false =>
      simp only [hname, Bool.false_eq_true, if_false]
      exact .unusable hname
    | true =>
      simp only [hname, if_true]
      cases hwrite : disk.write (Path.ofText name) text.toUTF8.toList with
      | error fault =>
        refine .unwritten (fun l htakes => ?_) hwrite
        rw [Disk.write_eq_ok_iff.2 ⟨l, htakes, rfl⟩] at hwrite
        cases hwrite
      | ok disk' =>
        obtain ⟨l, htakes, rfl⟩ := Disk.write_eq_ok_iff.1 hwrite
        exact .file htakes.rewrites_put

/-- A failure is reported, and nothing is put anywhere. -/
theorem exists_run_eq_of_fails (hline : Request.ofLine host.conventions line = .run o)
    (hsource : (Path.ofText o.source).isUsable) {message : String} (h : o.Fails disk message) :
    ∃ before, run disk line host =
      .responded ⟨1, "", before ++ "error: " ++ message ++ "\n"⟩ disk := by
  obtain ⟨messages, hreport⟩ := h.exists_report_eq
  refine ⟨linesOf messages, ?_⟩
  rw [run_eq hline hsource, hreport, Options.ending]
  simp only
  rw [linesOf_concat, ← String.append_assoc]

/-- What ends with a text has no failure to show. -/
theorem Delivers.ne_failed {output : Output} {outcome : Outcome Disk} {stdout stderr : String}
    (h : Delivers host disk text output outcome) :
    outcome ≠ .responded ⟨1, stdout, stderr⟩ disk' := by
  intro heq
  cases h <;> cases heq

theorem Delivers.exists_eq {outcome : Outcome Disk}
    (h : Delivers host disk text .standard outcome) :
    ∃ stderr, outcome = .responded ⟨0, text ++ "\n", stderr⟩ disk := by
  cases h with
  | standard => exact ⟨_, rfl⟩

/-- A file that takes a text gets it. -/
theorem Delivers.exists_rewrites {name : String} {l : Location} {outcome : Outcome Disk}
    (h : Delivers host disk text (.file name) outcome) (hname : (Path.ofText name).isUsable)
    (htakes : disk.Takes (Path.ofText name) l) : ∃ stderr disk',
      outcome = .responded ⟨0, "", stderr⟩ disk' ∧
        disk.Rewrites disk' (Path.ofText name) text.toUTF8.toList := by
  cases h with
  | file h => exact ⟨_, _, rfl, h⟩
  | unwritten hnone => exact absurd htakes (hnone l)
  | unusable h =>
    rw [hname] at h
    cases h

/-- The words of a line tell what it asks for, and raw mode is asked for by its switch. A command
whose source can be looked for ends with status 1 if the source cannot be read or a stage that the
format needs refuses its deck, and only then. The disk is as it was then, nothing is printed, and
the last thing said is what has failed. Any other command has a text for the deck, and puts it where
it is to go; for the tokens of a deck it does so whatever there is to say of its records. -/
theorem run_reports (host : Host) (disk : Disk)
    (hline : Request.ofLine host.conventions line = .run o)
    (hsource : (Path.ofText o.source).isUsable) :
    (∀ o', Asks host.conventions line o' ↔ o' = o) ∧
    (o.raw ↔ ∃ word ∈ line.takeWhile (· ≠ "--"),
      "--r".toList <+: word.toList ∧ word.toList <+: "--raw-lexer".toList) ∧
    ((∃ stdout stderr disk', run disk line host = .responded ⟨1, stdout, stderr⟩ disk') ↔
      ∃ message, o.Fails disk message) ∧
    (∀ message, o.Fails disk message → ∃ before, run disk line host =
      .responded ⟨1, "", before ++ "error: " ++ message ++ "\n"⟩ disk) ∧
    ((∀ message, ¬o.Fails disk message) → ∃ bytes text,
      disk.read (Path.ofText o.source) = .ok bytes ∧ o.Yields (Text.ofFile bytes) text ∧
        Delivers host disk text o.output (run disk line host)) ∧
    ∀ bytes found, o.format = .tokens → disk.read (Path.ofText o.source) = .ok bytes →
      (⟨.standard, o.raw⟩ : Decoder).tokens (Text.ofFile bytes) = .ok found →
        Delivers host disk (Listing.ofTokens found) o.output (run disk line host) := by
  have hasks (o' : Options) : Asks host.conventions line o' ↔ o' = o := by
    rw [← Request.ofLine_eq_run_iff, hline]
    exact ⟨fun h => (Request.run.inj h).symm, fun h => congrArg Request.run h.symm⟩
  have hfails {message : String} (hfailed : o.Fails disk message) :=
    exists_run_eq_of_fails hline hsource hfailed
  have hyields {bytes : List UInt8} {text : String}
      (hread : disk.read (Path.ofText o.source) = .ok bytes)
      (hdeck : o.Yields (Text.ofFile bytes) text) :
      Delivers host disk text o.output (run disk line host) := by
    obtain ⟨messages, hreport⟩ := hdeck.exists_report_eq hread
    exact delivers_of_report hline hsource hreport
  have hcases : (∃ message, o.Fails disk message) ∨ ∃ bytes text,
      disk.read (Path.ofText o.source) = .ok bytes ∧ o.Yields (Text.ofFile bytes) text := by
    cases hread : disk.read (Path.ofText o.source) with
    | error fault => exact .inl ⟨_, .unreadable hread⟩
    | ok bytes =>
      rcases o.refuses_or_yields (Text.ofFile bytes) with ⟨fault, hdeck⟩ | ⟨text, hdeck⟩
      · exact .inl ⟨_, .refused hread hdeck⟩
      · exact .inr ⟨bytes, text, rfl, hdeck⟩
  refine ⟨hasks, ((hasks o).2 rfl).raw_iff, ⟨?_, ?_⟩, fun message => hfails, ?_, ?_⟩
  · rintro ⟨stdout, stderr, disk', hrun⟩
    rcases hcases with hfailed | ⟨bytes, text, hread, hdeck⟩
    · exact hfailed
    · exact absurd hrun (hyields hread hdeck).ne_failed
  · rintro ⟨message, hfailed⟩
    obtain ⟨before, hrun⟩ := hfails hfailed
    exact ⟨_, _, _, hrun⟩
  · intro hnone
    rcases hcases with ⟨message, hfailed⟩ | ⟨bytes, text, hread, hdeck⟩
    · exact absurd hfailed (hnone message)
    · exact ⟨bytes, text, hread, hdeck, hyields hread hdeck⟩
  · intro bytes found hformat hread htokens
    exact hyields hread (.tokens hformat htokens)

/-- A card whose statement starts with no header, but with a key. -/
def strayKey : List UInt8 :=
  (List.replicate 9 ' ' ++ "NAME".toList ++ List.replicate 67 ' ').map fun c => .ofNat c.toNat

/-- A disk with this card for a deck. -/
def strayKeyDisk : Disk where
  nodes := [({ down := ["deck"] }, .file strayKey)]

/-- The tokens of this card. -/
def strayKeyTokens : List Token := [⟨.key, "NAME", 0, 9⟩, .endOfLine ⟨0, 80⟩]

theorem run_reports_strayKey :
    (∃ before message, run strayKeyDisk ["deck"] =
      .responded ⟨1, "", before ++ "error: " ++ message ++ "\n"⟩ strayKeyDisk) ∧
    (∃ stderr, run strayKeyDisk ["--output=-", "-ftokens", "--", "deck"] =
      .responded ⟨0, Listing.ofTokens strayKeyTokens ++ "\n", stderr⟩ strayKeyDisk) ∧
    ∃ stderr disk', run strayKeyDisk ["deck", "--raw", "-vf=tokens", "-o", "out"] .current =
        .responded ⟨0, "", stderr⟩ disk' ∧
      strayKeyDisk.Rewrites disk' (Path.ofText "out")
        (Listing.ofTokens strayKeyTokens).toUTF8.toList := by
  have hread : strayKeyDisk.read (Path.ofText "deck") = .ok strayKey := rfl
  have hsource : (Path.ofText "deck").isUsable := by decide +kernel
  have hsegments : (⟨.standard, false⟩ : Decoder).segments (Text.ofFile strayKey) =
      .error (.record (.unexpected ⟨.key, "NAME", 0, 9⟩
        (Deck.rejections ⟨.key, "NAME", 0, 9⟩))) := by decide +kernel
  have htokens : (⟨.standard, false⟩ : Decoder).tokens (Text.ofFile strayKey) =
      .ok strayKeyTokens := by decide +kernel
  have hraw : (⟨.standard, true⟩ : Decoder).tokens (Text.ofFile strayKey) =
      .ok strayKeyTokens := by decide +kernel
  have htakes : strayKeyDisk.Takes (Path.ofText "out") { down := ["out"] } :=
    ⟨⟨by decide +kernel, .enter rfl rfl (by decide +kernel) (.here _)⟩, by decide, rfl⟩
  have hplain : Request.ofLine .early ["deck"] = .run { source := "deck" } := by decide +kernel
  have hprint : Request.ofLine .early ["--output=-", "-ftokens", "--", "deck"] =
      .run ⟨"deck", .standard, .tokens, false, false⟩ := by decide +kernel
  have hwrite : Request.ofLine .current ["deck", "--raw", "-vf=tokens", "-o", "out"] =
      .run ⟨"deck", .file "out", .tokens, true, true⟩ := by decide +kernel
  obtain ⟨-, -, -, hfails, -, -⟩ := run_reports {} strayKeyDisk hplain hsource
  obtain ⟨-, -, -, -, -, hprinted⟩ := run_reports {} strayKeyDisk hprint hsource
  obtain ⟨-, -, -, -, -, hwritten⟩ := run_reports .current strayKeyDisk hwrite hsource
  obtain ⟨before, hrun⟩ := hfails _ (.refused hread (.segments (by decide) hsegments (by decide)))
  exact ⟨⟨before, _, hrun⟩, (hprinted _ _ rfl hread htokens).exists_eq,
    (hwritten _ _ rfl hread hraw).exists_rewrites (by decide +kernel) htakes⟩

end Command

end CardDeck
