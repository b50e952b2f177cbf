import Injection.Proofs.DirectoryFrame

/-!
# Runs that do not write

A run that does not write foretells what one that writes does.  The second one changes files as it
goes, but it has read each of them before, and no call reads the file of another one.

* `Charset.faithful_codec`: what has been encoded is read back, in every encoding but one.
* `Foretold`: what the report of a call that writes says of the call that does not.
* `final_transformAll_false`: a run that does not write, from what its calls answer.
* **`transformDirectory_foretold`**: whenever a run that writes returns, the run that does not write
  returns the same reports, and the files are as these say.
* `misread_of_escapes`: what is in the files need not be read back as it was foretold.
-/

namespace Injection

/-! ## Encodings -/

namespace Charset

/-- Characters below the limit are written as the bytes with their numbers. -/
theorem encodeBelow_eq_ok {c : Charset} {limit pos : Nat} {cs : List Char} {bytes : Bytes}
    (h : encodeBelow c limit pos cs = .ok bytes) :
    bytes = cs.map (fun c => UInt8.ofNat c.toNat) ∧ ∀ c ∈ cs, c.toNat < limit := by
  induction cs generalizing pos bytes with
  | nil =>
      cases h
      exact ⟨rfl, fun c hc => absurd hc List.not_mem_nil⟩
  | cons d cs ih =>
      rw [encodeBelow] at h
      split at h
      · next hd =>
          obtain ⟨rest, hrest, rfl⟩ := exists_of_map_eq_ok h
          obtain ⟨rfl, hcs⟩ := ih hrest
          exact ⟨rfl, List.forall_mem_cons.2 ⟨hd, hcs⟩⟩
      · cases h

theorem ofNat_byte {c : Char} (h : c.toNat < 256) :
    Char.ofNat (UInt8.ofNat c.toNat).toNat = c := by
  rw [Utf8.toNat_ofNat_byte h, Char.ofNat_toNat]

theorem decodeAscii_map {pos : Nat} {cs : List Char} (h : ∀ c ∈ cs, c.toNat < 128) :
    decodeAscii pos (cs.map fun c => UInt8.ofNat c.toNat) = .ok cs := by
  induction cs generalizing pos with
  | nil => rfl
  | cons c cs ih =>
      have hc := h c List.mem_cons_self
      have hlow : UInt8.ofNat c.toNat < 0x80 := by
        rw [Utf8.byte_lt_iff, Utf8.toNat_ofNat_byte (by omega)]
        exact hc
      rw [List.map_cons, decodeAscii, if_pos hlow, ih fun d hd => h d (List.mem_cons_of_mem c hd),
        ofNat_byte (by omega)]
      rfl

/-- **What has been encoded is read back**, unless it may hold what is an escape then. -/
theorem faithful_codec {c : Charset} (hc : c ≠ .rawEscapes) : c.codec.Faithful := by
  intro text bytes h
  obtain ⟨hencode, hdecode⟩ :
      c.encode text = .ok bytes ∧ c.codec.decode bytes = (c.decode bytes).mapError .decode := by
    refine ⟨?_, rfl⟩
    change (c.encode text).mapError _ = _ at h
    cases hresult : c.encode text with
    | error fault =>
        rw [hresult] at h
        cases h
    | ok found =>
        rw [hresult] at h
        cases h
        rfl
  have hread : c.decode bytes = .ok (Text.ofString text) := by
    cases c with
    | utf8 =>
        cases hencode
        rw [decode, Utf8.encodeString_eq, Utf8.decode_encodeChars]
        rfl
    | utf8Marked =>
        cases hencode
        have hdrop : dropMark (mark ++ Utf8.encodeString text) = Utf8.encodeString text := by
          rw [dropMark, if_pos (List.isPrefixOf_iff_prefix.2 (List.prefix_append _ _))]
          rfl
        rw [decode, hdrop, Utf8.encodeString_eq, Utf8.decode_encodeChars]
        rfl
    | latin1 =>
        obtain ⟨rfl, hlow⟩ := encodeBelow_eq_ok hencode
        rw [decode, List.map_map]
        exact congrArg (fun cs => Except.ok (Text.ofChars cs))
          ((List.map_congr_left fun c hc => ofNat_byte (hlow c hc)).trans (List.map_id text.toList))
    | ascii =>
        obtain ⟨rfl, hlow⟩ := encodeBelow_eq_ok hencode
        rw [decode, decodeAscii_map hlow]
        rfl
    | rawEscapes => exact absurd rfl hc
  rw [hdecode, hread]
  rfl

/-- A text that cannot be written is at fault, and not any bytes. -/
theorem encode_codec_ne_decode (c : Charset) (text : String) (fault : DecodeFault) :
    c.codec.encode text ≠ .error (.decode fault) := by
  change (c.encode text).mapError _ ≠ _
  cases c.encode text <;> rintro ⟨⟩

end Charset

namespace Service

variable {host : Host} {s : Service} {directory p : Path} {fs fs' : Files}
  {report : FileReport} {reports : List FileReport} {todo : List Names}

/-! ## A single file -/

/-- Nothing is refused that has to do with writing, and texts that cannot be written are not
reported as files that cannot be read. -/
structure WritesFreely (host : Host) (s : Service) : Prop where
  opened : ∀ p, host.os.reason? .openToWrite p = none
  written : ∀ p, host.os.reason? .write p = none
  encoder : ∀ c, s.codec host = .ok c → ∀ text fault, c.encode text ≠ .error (.decode fault)

/-- **What the report of a call that writes says**: of the file that this call leaves, and of the
call that does not write. -/
inductive Foretold (host : Host) (s : Service) (p : Path) (fs fs' : Files) :
    FileReport → Prop where
  /-- There was nothing to write. -/
  | same (report : FileReport) (hfiles : fs' = fs)
      (hunchanged : ∀ o, report = .success o → o.changed = false) : Foretold host s p fs fs' report
  /-- The new text is in the file, as the encoding writes it. -/
  | rewritten (o : Outcome) (c : Codec) (bytes : Bytes) (hchanged : o.changed = true)
      (hcall : ((s.transformFile host p none false).final fs).2 = .ok o)
      (hcodec : s.codec host = .ok c) (hencode : c.encode o.output = .ok bytes)
      (hread : fs'.read p = .ok bytes) : Foretold host s p fs fs' (.success o)

/-- **One file.**  A call that writes and is reported has the report of the call that does not. -/
theorem foretold_reportFile (hfree : s.WritesFreely host)
    (h : (s.reportFile host p true).final fs = (fs', .ok report)) :
    (s.reportFile host p false).final fs = (fs, .ok report) ∧
      Foretold host.inner s p fs fs' report := by
  rw [final_reportFile] at h ⊢
  rw [final_transformFile_false]
  have hrun := fileRun host.inner s p none fs
  generalize ((s.transformFile host.inner p none true).final fs).1 = files at h hrun
  generalize ((s.transformFile host.inner p none true).final fs).2 = answer at h hrun
  obtain ⟨rfl, hreport⟩ := Prod.mk.inj h
  cases hrun with
  | failed f hpreview =>
      rw [hpreview]
      refine ⟨by rw [← hreport], .same report rfl fun o ho => ?_⟩
      -- No failure is reported as a success.
      subst ho
      cases f <;> cases hreport
  | kept o hpreview hchanged =>
      rw [hpreview]
      cases hreport
      refine ⟨rfl, .same _ rfl ?_⟩
      rintro _ ⟨⟩
      exact hchanged
  | shut reason hreason => cases (hfree.opened p).symm.trans hreason
  | refused o c fault hopens hencode =>
      -- What the encoding refuses is not reported: it ends the run.
      cases fault with
      | decode fault => exact absurd hencode (hfree.encoder c hopens.codec _ fault)
      | encode fault => cases hreport
      | whole message => cases hreport
  | broken o c bytes reason hopens hencode hreason =>
      cases (hfree.written p).symm.trans hreason
  | written o c bytes hopens hencode hreason =>
      rw [hopens.preview]
      cases hreport
      obtain ⟨names, old, -, hlocate⟩ := hopens.exists_locate
      have hcall : ((s.transformFile host.inner p none false).final fs).2 = .ok o := by
        rw [final_transformFile_false, hopens.preview]
      exact ⟨rfl, .rewritten o c bytes hopens.changed hcall hopens.codec hencode
        (Files.read_write_write hlocate [] bytes)⟩

/-! ## All files of a directory -/

/-- A run that does not write, from what its calls answer. -/
theorem final_transformAll_false
    (htakes : ∀ n ∈ todo, s.takes host fs directory n = .ok (s.wants directory n))
    (hreports : List.Forall₂ (fun n report =>
      (s.reportFile host (directory.append n) false).final fs = (fs, .ok report))
      (todo.filter (s.wants directory)) reports) :
    (s.transformAll host directory false todo).final fs = (fs, .ok reports) := by
  induction todo generalizing reports with
  | nil =>
      cases hreports
      rfl
  | cons names todo ih =>
      have hhead := htakes names List.mem_cons_self
      have htail : ∀ n ∈ todo, s.takes host fs directory n = .ok (s.wants directory n) :=
        fun n hn => htakes n (List.mem_cons_of_mem names hn)
      cases hwants : s.wants directory names with
      | false =>
          rw [hwants] at hhead
          rw [List.filter_cons_of_neg (by rw [hwants]; exact Bool.false_ne_true)] at hreports
          rw [final_transformAll_skip hhead]
          exact ih htail hreports
      | true =>
          rw [hwants] at hhead
          rw [List.filter_cons_of_pos hwants] at hreports
          cases hreports with
          | cons hreport hrest =>
              rw [final_transformAll_report hhead hreport, ih htail hrest]
              rfl

/-- A file that the run has dealt with reads as its own call leaves it. -/
theorem Reached.read_eq {folder n : Names} {done : List Names} {write : Bool} (htree : fs.IsTree)
    (hdirectory : fs.locate directory = .ok (.folder folder))
    (hreached : Reached (fun n => (s.ownCall host directory write fs n).1) fs folder done fs')
    (hn : n ∈ done) (hbelow : n ∈ fs.below folder)
    (hfits : (directory.append n).text.utf8ByteSize ≤ Files.pathLimit) :
    fs'.read (directory.append n) =
      (s.ownCall host directory write fs n).1.read (directory.append n) := by
  obtain ⟨old, hold⟩ := exists_locate_of_alike htree hdirectory (.refl fs) hbelow hfits
  have halike : fs.Alike (s.ownCall host directory write fs n).1 :=
    (frame_transformFile host s none write hold).1
  obtain ⟨bytes, hlocate⟩ := exists_locate_of_alike htree hdirectory hreached.alike hbelow hfits
  obtain ⟨own, hown⟩ := exists_locate_of_alike htree hdirectory halike hbelow hfits
  have hsame := hreached.own_of_mem n hn
  rw [Files.get?_of_locate hlocate, Files.get?_of_locate hown] at hsame
  cases hsame
  rw [Files.read, Files.read, hlocate, hown]

section Returned

variable {folder : Names} (htree : fs.IsTree)
  (hdirectory : fs.locate directory = .ok (.folder folder))
  (hfree : s.WritesFreely host)
  (h : Passes host s directory true fs (host.os.listed fs directory folder) fs' (.ok reports))

include htree hdirectory hfree h

/-- The run that does not write makes the same reports. -/
theorem Passes.dry :
    (s.transformAll host directory false (host.os.listed fs directory folder)).final fs =
      (fs, .ok reports) := by
  obtain ⟨-, hasked, hall⟩ := h.complete htree hdirectory
  exact final_transformAll_false (fun n hn => (hasked n hn).1)
    (hall.imp fun n report hreport => (foretold_reportFile hfree hreport).1)

/-- A file with a report of a change holds the new text, as the encoding writes it. -/
theorem Passes.holds_output {o : Outcome} (ho : .success o ∈ reports)
    (hchanged : o.changed = true) :
    (s.transformFile host (Path.ofString o.file) none false fs).2.result = .ok o ∧
      ∃ c bytes, s.codec host = .ok c ∧ c.encode o.output = .ok bytes ∧
        fs'.read (Path.ofString o.file) = .ok bytes := by
  obtain ⟨hreached, hasked, hall⟩ := h.complete htree hdirectory
  obtain ⟨n, hn, hreport⟩ := (exists_of_forall₂ hall).2 _ ho
  have hlisted := (List.mem_filter.1 hn).1
  have hbelow := (Refusals.mem_listed.1 hlisted).1
  have htext : o.file = (directory.append n).text := file_of_reportFile hreport
  rw [htext, Path.ofString_text (htree.plain_append hdirectory hbelow)]
  cases (foretold_reportFile hfree hreport).2 with
  | same _ _ hunchanged =>
      rw [hunchanged o rfl] at hchanged
      cases hchanged
  | rewritten _ c bytes _ hcall hcodec hencode hread =>
      -- There is room enough outside the run, and nothing behind its own call touches the file.
      refine ⟨result_transformFile_of_inner hcall, c, bytes, hcodec, hencode, ?_⟩
      rw [hreached.read_eq htree hdirectory hn hbelow (hasked n hlisted).2.2, hread]

/-- A place to which no report of a change leads is as before. -/
theorem Passes.get?_eq {place : Names} (hplace : ∀ o, .success o ∈ reports → o.changed = true →
      ∀ bytes, fs.locate (Path.ofString o.file) ≠ .ok (.file place bytes)) :
    fs'.get? place = fs.get? place := by
  obtain ⟨hreached, hasked, hall⟩ := h.complete htree hdirectory
  by_cases hwanted : ∃ n ∈ s.eligible host fs directory folder, place = folder ++ n
  · obtain ⟨n, hn, rfl⟩ := hwanted
    have hlisted := (List.mem_filter.1 hn).1
    have hbelow := (Refusals.mem_listed.1 hlisted).1
    obtain ⟨report, hmem, hreport⟩ := (exists_of_forall₂ hall).1 n hn
    have htext := file_of_reportFile hreport
    rw [hreached.own_of_mem n hn]
    cases (foretold_reportFile hfree hreport).2 with
    | same _ hfiles _ => rw [hfiles]
    | rewritten o c bytes hchanged hcall hcodec hencode hread =>
        -- The report of this change leads to the place after all.
        obtain ⟨old, hold⟩ := exists_locate_of_alike htree hdirectory (.refl fs) hbelow
          (hasked n hlisted).2.2
        refine absurd ?_ (hplace o hmem hchanged old)
        have htext : o.file = (directory.append n).text := htext
        rw [htext, Path.ofString_text (htree.plain_append hdirectory hbelow), hold]
  · exact hreached.same place fun n hn heq => hwanted ⟨n, hn, heq⟩

end Returned

/-- **A run that does not write foretells one that writes**, if nothing is refused.  Whenever the
latter returns, the former returns the same reports.  After it the file of each report of a change
holds the encoding of the new text that a call without writing answers for the file as it was, so
that this is read back if the encoding reads what it wrote.  All other files are as before. -/
theorem transformDirectory_foretold (host : Host) (s : Service) (directory : Path)
    (fs : Files) (reports : List FileReport) (hfree : s.WritesFreely host) (htree : fs.IsTree)
    (hreal : (s.transformDirectory host directory true fs).2.result = .ok reports) :
    (s.transformDirectory host directory false fs).2.result = .ok reports ∧
    (∀ o, .success o ∈ reports → o.changed = true →
      (s.transformFile host (Path.ofString o.file) none false fs).2.result = .ok o ∧
      ∃ c bytes, s.codec host = .ok c ∧ c.encode o.output = .ok bytes ∧
        (s.transformDirectory host directory true fs).1.read (Path.ofString o.file) = .ok bytes ∧
        (c.Faithful → c.decode bytes = .ok (Text.ofString o.output))) ∧
    ∀ place, (∀ o, .success o ∈ reports → o.changed = true → ∀ bytes,
        fs.locate (Path.ofString o.file) ≠ .ok (.file place bytes)) →
      (s.transformDirectory host directory true fs).1.get? place = fs.get? place := by
  rcases final_transformDirectory_cases host s directory fs with
    ⟨result, hfinal, hnothing⟩ | ⟨r, folder, -, hdirectory, hfinal⟩
  · obtain ⟨hfiles, hresult⟩ := Prod.mk.inj (hfinal true)
    obtain ⟨-, hdry⟩ := Prod.mk.inj (hfinal false)
    rw [hresult] at hreal
    obtain ⟨rfl, -⟩ := hnothing reports hreal
    rw [hfiles, hdry]
    exact ⟨hreal, fun o ho => absurd ho List.not_mem_nil, fun _ _ => rfl⟩
  · have hpasses := passes_transformAll host s directory true fs
      (host.os.listed fs directory folder)
    rw [← hfinal true, Act.final, hreal] at hpasses
    have hdry := hpasses.dry htree hdirectory hfree
    rw [← hfinal false] at hdry
    refine ⟨(Prod.mk.inj hdry).2, fun o ho hchanged => ?_,
      fun place => hpasses.get?_eq htree hdirectory hfree⟩
    obtain ⟨hcall, c, bytes, hcodec, hencode, hread⟩ :=
      hpasses.holds_output htree hdirectory hfree ho hchanged
    exact ⟨hcall, c, bytes, hcodec, hencode, hread, fun hfaithful => hfaithful _ _ hencode⟩

theorem writesFreely_sample : (inCharset "utf-8").WritesFreely sampleHost := by
  refine ⟨fun _ => rfl, fun _ => rfl, fun c hc => ?_⟩
  have hcodec : (inCharset "utf-8").codec sampleHost = .ok Charset.utf8.codec := rfl
  cases hcodec.symm.trans hc
  exact Charset.encode_codec_ne_decode .utf8

/-- A run that rewrites one file and cannot decode another one is foretold, and what it writes is
read back. -/
theorem foretold_of_undecodable :
    (inCharset "utf-8").WritesFreely sampleHost ∧ (sampleFiles [255]).IsTree ∧
    ∃ reports, ((inCharset "utf-8").transformDirectory sampleHost here true
        (sampleFiles [255])).2.result = .ok reports ∧
      ((inCharset "utf-8").transformDirectory sampleHost here false
        (sampleFiles [255])).2.result = .ok reports ∧
      ((inCharset "utf-8").transformDirectory sampleHost here true (sampleFiles [255])).1.get?
        ["b.js"] = some plainOutputBytes ∧
      ∀ o, .success o ∈ reports → o.changed = true →
        ∃ bytes, ((inCharset "utf-8").transformDirectory sampleHost here true
            (sampleFiles [255])).1.read (Path.ofString o.file) = .ok bytes ∧
          Charset.utf8.codec.decode bytes = .ok (Text.ofString o.output) := by
  have hfree := writesFreely_sample
  have htree := (setting_sample [255]).isTree
  obtain ⟨reports, hreal, hbytes⟩ := exists_reports_sample
  obtain ⟨hdry, hchanges, -⟩ := transformDirectory_foretold sampleHost (inCharset "utf-8") here
    (sampleFiles [255]) reports hfree htree hreal
  refine ⟨hfree, htree, reports, hreal, hdry, hbytes, fun o ho hchanged => ?_⟩
  obtain ⟨-, c, bytes, hcodec, -, hread, hback⟩ := hchanges o ho hchanged
  have hutf8 : (inCharset "utf-8").codec sampleHost = .ok Charset.utf8.codec := rfl
  cases hutf8.symm.trans hcodec
  exact ⟨bytes, hread, hback (Charset.faithful_codec (by decide))⟩

/-! ## A file in raw escapes -/

/-- A function, and a comment that looks like an escape. -/
def shieldedSource : String := "/** @injectable */\nfunction g() \x7b\x7d\n// \\u0041\n"

/-- What becomes of `shieldedSource`. -/
def shieldedOutput : String :=
  "/** @injectable */\nfunction g() \x7b\x7d\ng.injectable = true;\n// \\u0041\n"

/-- The encoding of the comment, in which its backslash is what it is. -/
def commentBytes : Bytes := [47, 47, 32, 92, 117, 48, 48, 52, 49, 10]

/-- The comment in a file: its backslash is an escape itself. -/
def shieldedComment : Bytes := [47, 47, 32, 92, 117, 48, 48, 53, 99, 117, 48, 48, 52, 49, 10]

/-- The tree of `shieldedSource`. -/
def shieldedTree : Tree :=
  .node ⟨.program, true, false, 0, 45, 0, 3, none, 0⟩
    (plainTree.children ++ [.node ⟨.comment, true, false, 35, 44, 2, 2, none, 11⟩ []])

/-- A host with the tree. -/
def shieldedHost : Host := .common fun _ _ => shieldedTree

/-- A directory with the file. -/
def shieldedFiles : Files := ⟨[(["e.js"], plainBytes ++ shieldedComment)], [], []⟩

/-- A service that reads and writes raw escapes. -/
def inEscapes : Service := inCharset "raw_unicode_escape"

theorem encodeString_shieldedSource :
    Utf8.encodeString shieldedSource = plainBytes ++ commentBytes :=
  (Utf8.encodeString_ofList _).trans rfl

theorem encodeString_shieldedOutput :
    Utf8.encodeString shieldedOutput = plainOutputBytes ++ commentBytes :=
  (Utf8.encodeString_ofList _).trans rfl

theorem setting_shielded : inEscapes.Setting shieldedHost shieldedFiles here [] := by
  refine ⟨⟨Transform.oneGrammar, rfl⟩, ⟨Charset.rawEscapes.codec, rfl⟩, ?_, ?_, ?_, rfl⟩ <;> decide

theorem below_shielded : shieldedFiles.below [] = [["e.js"]] :=
  List.mergeSort_of_pairwise (by decide)

theorem eligible_shielded : inEscapes.eligible shieldedHost shieldedFiles here [] = [["e.js"]] := by
  rw [eligible, Refusals.listed, below_shielded]
  rfl

theorem isOpen_shielded : IsOpen shieldedHost shieldedFiles here [] := by
  have hfits : (here.append ["e.js"]).text.utf8ByteSize ≤ Files.pathLimit := by decide
  constructor
  · decide
  · rw [Refusals.listed, below_shielded]
    exact List.forall_mem_singleton.2 ⟨rfl, hfits⟩

theorem previewFile_shielded :
    ∃ o, (inEscapes.previewFile shieldedHost.inner shieldedFiles ⟨.none, ["e.js"]⟩ none).result =
        .ok o ∧ o.changed = true ∧ o.output = shieldedOutput ∧ o.file = "e.js" := by
  have hlocate : shieldedFiles.locate ⟨.none, ["e.js"]⟩ =
      .ok (.file ["e.js"] (plainBytes ++ shieldedComment)) := rfl
  have hdecode : Charset.rawEscapes.codec.decode (plainBytes ++ shieldedComment) =
      .ok (Text.ofString shieldedSource) := by
    have hcheck : (Charset.rawEscapes.codec.decode (plainBytes ++ shieldedComment)).toOption.any
      (· = Text.ofString shieldedSource) = true := by decide +kernel
    obtain ⟨text, htext, hsame⟩ := exists_of_toOption_any hcheck
    rw [htext, of_decide_eq_true hsame]
  have hpreview : (inEscapes.previewFile shieldedHost.inner shieldedFiles ⟨.none, ["e.js"]⟩
      none).result = _ :=
    result_previewFile rfl rfl rfl hlocate rfl rfl rfl hdecode
  have herror : shieldedTree.firstError?.isNone = true := rfl
  have hroot : Transform.tree shieldedHost.inner Transform.oneGrammar
      (Utf8.encodeString shieldedSource) "javascript" "e.js" = .ok shieldedTree := by
    simp only [Transform.tree, Transform.grammar_javascript, shieldedHost, Host.inner,
      Host.tree_common, Option.isNone_iff_eq_none.1 herror]
  have hwf : shieldedTree.WellFormed (Utf8.encodeString shieldedSource) := by
    rw [encodeString_shieldedSource]
    decide
  have hyields : (Pass.run ⟨plainBytes ++ commentBytes, .warn, "uid", 979⟩
      shieldedTree).result.toOption.any
      (Transform.yields (plainBytes ++ commentBytes) (plainOutputBytes ++ commentBytes)) =
        true := by
    decide +kernel
  rw [← encodeString_shieldedSource, ← encodeString_shieldedOutput] at hyields
  obtain ⟨chs, -, htext⟩ := Transform.exists_text_of_yields (s := inEscapes.settings) hroot hwf
    (by decide) hyields
  have hne : shieldedOutput ≠ shieldedSource := by simp [shieldedOutput, shieldedSource]
  exact ⟨_, hpreview.trans htext, decide_eq_true hne, rfl, rfl⟩

/-- Nothing hides the backslash when the text is written, and it opens an escape when it is read
back. -/
theorem encode_shielded :
    Charset.rawEscapes.codec.encode shieldedOutput = .ok (plainOutputBytes ++ commentBytes) ∧
    ∃ text, Charset.rawEscapes.codec.decode (plainOutputBytes ++ commentBytes) = .ok text ∧
      text ≠ Text.ofString shieldedOutput := by
  have hencode : (Charset.rawEscapes.codec.encode shieldedOutput).toOption.any
      (· = plainOutputBytes ++ commentBytes) = true := by decide +kernel
  have hdecode : (Charset.rawEscapes.codec.decode (plainOutputBytes ++ commentBytes)).toOption.any
      (· ≠ Text.ofString shieldedOutput) = true := by decide +kernel
  obtain ⟨bytes, hbytes, hsame⟩ := exists_of_toOption_any hencode
  obtain ⟨text, htext, hdiffers⟩ := exists_of_toOption_any hdecode
  exact ⟨by rw [hbytes, of_decide_eq_true hsame], text, htext, of_decide_eq_true hdiffers⟩

/-- The run over a directory with the file leaves a text that is not read back as the one that the
call without writing answers. -/
theorem misread_of_escapes :
    shieldedHost.os = .none ∧ shieldedFiles.IsTree ∧
    inEscapes.codec shieldedHost = .ok Charset.rawEscapes.codec ∧
    ∃ o bytes text,
      (inEscapes.transformDirectory shieldedHost here true shieldedFiles).2.result =
        .ok [.success o] ∧
      o.changed = true ∧ o.file = "e.js" ∧
      (inEscapes.transformFile shieldedHost ⟨.none, ["e.js"]⟩ none false shieldedFiles).2.result =
        .ok o ∧
      (inEscapes.transformDirectory shieldedHost here true shieldedFiles).1.read
        ⟨.none, ["e.js"]⟩ = .ok bytes ∧
      Charset.rawEscapes.codec.decode bytes = .ok text ∧ text ≠ Text.ofString o.output := by
  have hset := setting_shielded
  obtain ⟨o, hpreview, hchanged, houtput, hfile⟩ := previewFile_shielded
  obtain ⟨hencode, text, hdecode, hdiffers⟩ := encode_shielded
  rw [← houtput] at hencode hdiffers
  have hopens : Opens shieldedHost.inner inEscapes ⟨.none, ["e.js"]⟩ none shieldedFiles o
      Charset.rawEscapes.codec := ⟨hpreview, hchanged, rfl, rfl⟩
  have hlocate : shieldedFiles.locate ⟨.none, ["e.js"]⟩ =
      .ok (.file ["e.js"] (plainBytes ++ shieldedComment)) := rfl
  have hpath : here.append ["e.js"] = ⟨.none, ["e.js"]⟩ := rfl
  have hown : inEscapes.ownCall shieldedHost.inner here true shieldedFiles ["e.js"] =
      ((shieldedFiles.write ⟨.none, ["e.js"]⟩ []).write ⟨.none, ["e.js"]⟩
        (plainOutputBytes ++ commentBytes), .ok o) := by
    rw [ownCall, hpath, hopens.final_of_written hencode rfl]
  -- The run consists of this one call.
  have hends : ∀ n ∈ inEscapes.eligible shieldedHost shieldedFiles here [],
      endsRun (inEscapes.ownCall shieldedHost.inner here true shieldedFiles n).2 = false := by
    rw [eligible_shielded]
    refine List.forall_mem_singleton.2 ?_
    rw [hown]
    rfl
  obtain ⟨reports, hreports, hall, hreached⟩ :=
    exists_reports_of_ownCalls true hset isOpen_shielded hends
  rw [eligible_shielded] at hall hreached
  have hdry : (inEscapes.transformFile shieldedHost ⟨.none, ["e.js"]⟩ none false
      shieldedFiles).2.result = .ok o := by
    refine result_transformFile_of_inner ?_
    rw [final_transformFile_false, hpreview]
  have hread := hreached.read_eq hset.isTree hset.isDirectory List.mem_cons_self
    (by rw [below_shielded]; exact List.mem_cons_self) (by decide)
  rw [hown, hpath, Files.read_write_write hlocate] at hread
  cases hall with
  | cons hreport hrest =>
      cases hrest
      rw [hown] at hreport
      cases hreport
      exact ⟨rfl, hset.isTree, rfl, o, _, text, hreports, hchanged, hfile, hdry, hread, hdecode,
        hdiffers⟩

end Service
end Injection
