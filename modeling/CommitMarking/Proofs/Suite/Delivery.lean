import CommitMarking.Proofs.Suite.Closing
import CommitMarking.Proofs.Suite.Protocol
import CommitMarking.Proofs.Suite.Verdict

namespace CommitMarking

namespace Text

theorem lines_of_not_mem {s : String} (h : '\n' ∉ s.toList) :
    lines s = if s = "" then [] else [s] := by
  rw [lines, charLines, List.splitOn_eq_singleton h]
  by_cases hs : s = ""
  · rw [hs]
    rfl
  · have hne : s.toList ≠ [] := fun hnil => hs (String.toList_inj.1 hnil)
    simp [hs, hne]

end Text

namespace SuiteReport

variable (r : SuiteReport)

theorem exists_encode_eq : ∃ cs, r.encode = '\x7b' :: cs :=
  ⟨_, r.encode_eq⟩

/-- A report that is cut short is no document. -/
theorem read?_cut_encode {cs : List Char} (hp : cs <+: r.encode) (hne : cs ≠ r.encode) :
    Document.read? cs = none := by
  obtain ⟨q, hq⟩ := hp
  obtain ⟨whole, hwhole⟩ := r.exists_encode_eq
  cases cs with
  | nil => rfl
  | cons c cs =>
      obtain ⟨rfl, rfl⟩ := List.cons.inj (hq.trans hwhole)
      have hread := r.value?_encode 0
      rw [hwhole] at hread
      refine Document.read?_cut hread fun hnil => hne ?_
      rw [← hq, hnil, List.append_nil]

theorem read?_torn_encode {cs : List Char} (hp : cs <+: r.encode) :
    Document.read? (cs ++ [Text.Utf8.replacement]) = none := by
  obtain ⟨q, hq⟩ := hp
  obtain ⟨whole, hwhole⟩ := r.exists_encode_eq
  cases cs with
  | nil => rfl
  | cons c cs =>
      obtain ⟨rfl, rfl⟩ := List.cons.inj (hq.trans hwhole)
      exact Document.read?_stray (by decide) (by decide) cs

def json : Bytes := Text.Utf8.encode (String.ofList r.encode)

/-- What can be read of a report of which the end is missing is one line at most, and no report. -/
theorem lossy_cut_json {p : Bytes} (hp : p <+: r.json) (hne : p ≠ r.json) :
    '\n' ∉ (Text.Utf8.lossy p).toList ∧ read? (Text.Utf8.lossy p) = none := by
  have hr : '\n' ∉ r.encode := r.newline_not_mem_encode
  have h := Text.Utf8.lossy_cut hp hne
  rw [String.toList_ofList] at h
  rcases h with ⟨hcs, hcut⟩ | ⟨cs, hcs, htorn⟩
  · exact ⟨fun hn => hr (hcs.subset hn), by rw [read?, r.read?_cut_encode hcs hcut]; rfl⟩
  · rw [read?, htorn, r.read?_torn_encode hcs]
    refine ⟨fun hn => ?_, rfl⟩
    rcases List.mem_append.1 hn with hn | hn
    · exact hr (hcs.subset hn)
    · cases List.mem_singleton.1 hn

end SuiteReport

/-- A host of which the report arrives without its end counts as failed, whatever is missing. -/
theorem SuiteOutcome.ofExecution_cut (r : SuiteReport) {p : Bytes} (hp : p <+: r.json)
    (hne : p ≠ r.json) (suite : String) (stderr : Bytes) (held : Nat) :
    ∃ message, ofExecution suite ⟨some 0, p, stderr, held⟩ = exception message := by
  obtain ⟨hline, hread⟩ := r.lossy_cut_json hp hne
  have hl : ofExecution suite ⟨some 0, p, stderr, held⟩ =
      ofOutput suite (Text.Utf8.lossy p) := rfl
  rw [hl, ofOutput]
  cases hlast : lastLine? (Text.Utf8.lossy p) with
  | none => exact ⟨_, rfl⟩
  | some line =>
      obtain ⟨above, below, hlines, -⟩ := lastLine?_eq_some_iff.1 hlast
      rw [Text.lines_of_not_mem hline] at hlines
      have hmem : line ∈ above ++ line :: below := by simp
      rw [← hlines] at hmem
      obtain rfl : line = Text.Utf8.lossy p := by
        split at hmem
        · cases hmem
        · exact List.mem_singleton.1 hmem
      simp only [hread]
      exact ⟨_, rfl⟩

namespace Sink

variable (s : Sink)

theorem taken_isPrefix (bytes : Bytes) : s.taken bytes <+: bytes := by
  unfold taken
  cases s.room with
  | none => exact List.prefix_rfl
  | some n => exact List.take_prefix n bytes

theorem holds_iff_isPrefix_taken (document rest : Bytes) :
    s.holds document.length = true ↔ document <+: s.taken (document ++ rest) := by
  unfold holds taken
  cases s.room with
  | none => exact iff_of_true rfl (List.prefix_append document rest)
  | some n =>
      rw [List.prefix_take_iff]
      simp

theorem holds_iff_taken_eq (bytes : Bytes) :
    s.holds bytes.length = true ↔ s.taken bytes = bytes := by
  have h := s.holds_iff_isPrefix_taken bytes []
  rw [List.append_nil] at h
  refine h.trans ⟨fun hp => (s.taken_isPrefix bytes).eq_of_length ?_, fun he => ?_⟩
  · exact Nat.le_antisymm (s.taken_isPrefix bytes).length_le hp.length_le
  · exact he.symm ▸ List.prefix_rfl

theorem writeLine_eq (document : Bytes) {result : Except HostError Unit} {written : Bytes}
    (h : s.writeLine document = (result, written)) :
    written <+: document ++ Text.Utf8.encode "\n" ∧
      (result = .ok () ↔ written = document ++ Text.Utf8.encode "\n" ∧ s.flushes = true) ∧
      ((∃ e, result = .error (.encode e)) ↔ ¬document <+: written) ∧
      ((∃ e, result = .error (.io e)) ↔ document <+: written ∧
        ¬(written = document ++ Text.Utf8.encode "\n" ∧ s.flushes = true)) := by
  obtain ⟨hresult, rfl⟩ := Prod.mk.inj h
  have hdocument := s.holds_iff_isPrefix_taken document (Text.Utf8.encode "\n")
  have hall := s.holds_iff_taken_eq (document ++ Text.Utf8.encode "\n")
  refine ⟨s.taken_isPrefix _, ?_⟩
  have hpart : s.holds (document ++ Text.Utf8.encode "\n").length = true →
      s.holds document.length = true := fun h =>
    hdocument.2 ((hall.1 h).symm ▸ List.prefix_append _ _)
  rw [← hdocument, ← hall, ← hresult]
  generalize s.holds document.length = fits at hpart
  generalize s.holds (document ++ Text.Utf8.encode "\n").length = ends at hpart
  cases ends with
  | true =>
      rw [hpart rfl]
      cases s.flushes <;> simp
  | false => cases fits <;> simp

end Sink

theorem TestCase.name_mapM_run (m : Machine) (place : Place) (cs : List TestCase) (w : World) :
    ((cs.mapM (TestCase.run m place)).run w).1.map (·.1.name) = cs.map (·.name) := by
  induction cs generalizing w with
  | nil => rfl
  | cons c cs ih =>
      rw [run_mapM_cons, List.map_cons, ih]
      rfl

namespace TestSuite

variable {m : Machine} {place : Place} {w v : World}

theorem run_runCasesWithin_cons (limit : Nat) (c : TestCase) (cs : List TestCase) :
    (runCasesWithin m place limit (c :: cs)).run w =
      let ran := (c.run m place).run w
      if limit ≤ ran.1.2 then (none, ran.2)
      else
        let rest := (runCasesWithin m place (limit - ran.1.2) cs).run ran.2
        (rest.1.map (ran.1.1 :: ·), rest.2) := by
  let ran := (c.run m place).run w
  have hcons : (runCasesWithin m place limit (c :: cs)).run w =
      StateT.run (if limit ≤ ran.1.2 then pure none
        else return (← runCasesWithin m place (limit - ran.1.2) cs).map (ran.1.1 :: ·) :
          StateM World (Option (List CaseOutcome))) ran.2 := rfl
  rw [hcons]
  dsimp only [ran]
  split <;> rfl

/-- Cases that are over in time have the outcomes that they have without a limit. -/
theorem run_cases_of_within {limit : Nat} {cs : List TestCase} {outcomes : List CaseOutcome}
    (h : (runCasesWithin m place limit cs).run w = (some outcomes, v)) :
    ((cs.mapM (TestCase.run m place)).run w).1.map (·.1) = outcomes ∧
      ((cs.mapM (TestCase.run m place)).run w).2 = v := by
  induction cs generalizing limit w outcomes with
  | nil => cases h; exact ⟨rfl, rfl⟩
  | cons c cs ih =>
      rw [run_mapM_cons]
      rw [run_runCasesWithin_cons] at h
      dsimp only at h
      split at h
      · cases h
      · obtain ⟨hcases, rfl⟩ := Prod.mk.inj h
        obtain ⟨rest, hrest, rfl⟩ := Option.map_eq_some_iff.1 hcases
        obtain ⟨houtcomes, hworld⟩ := ih (Prod.ext hrest rfl)
        exact ⟨by rw [List.map_cons, houtcomes], hworld⟩

theorem run_of_within {limit : Nat} {s : TestSuite} {report : SuiteReport}
    (h : (s.runWithin m place limit).run w = (some report, v)) :
    (s.run m place).run w = (report, v) := by
  obtain ⟨hreport, hworld⟩ := Prod.mk.inj h
  obtain ⟨outcomes, houtcomes, rfl⟩ := Option.map_eq_some_iff.1 hreport
  obtain ⟨hcases, hran⟩ := run_cases_of_within (Prod.ext houtcomes hworld)
  exact Prod.ext (congrArg (SuiteReport.mk s.name) hcases) hran

end TestSuite

namespace Registry

theorem get?_eq_none_iff {r : Registry} {suite : String} :
    r.get? suite = none ↔ ∀ s ∈ r.suites, s.name ≠ suite := by
  simp [get?]

theorem deliver_eq (sink : Sink) (report : SuiteReport) {result : Except HostError SuiteReport}
    {written : Bytes} (h : deliver sink report = (result, written)) :
    written <+: report.printed ∧
      (result = .ok report ↔ written = report.printed ∧ sink.flushes = true) ∧
      ((∃ e, result = .error (.encode e)) ↔ ¬report.json <+: written) ∧
      ((∃ e, result = .error (.io e)) ↔
        report.json <+: written ∧ ¬(written = report.printed ∧ sink.flushes = true)) := by
  rcases hw : sink.writeLine report.json with ⟨line, out⟩
  have hline := sink.writeLine_eq report.json hw
  have hd : deliver sink report = (line.map fun _ => report, out) := by
    rw [SuiteReport.json] at hw
    rw [deliver, hw]
  cases h.symm.trans hd
  rw [SuiteReport.json, report.encode_append_newline] at hline
  cases line with
  | ok => simpa [Except.map, SuiteReport.json] using hline
  | error e => simpa [Except.map, SuiteReport.json] using hline

theorem deliver_ne_unknownSuite (sink : Sink) (report : SuiteReport) (name : String) :
    (deliver sink report).1 ≠ .error (.unknownSuite name) := by
  rcases hd : deliver sink report with ⟨result, written⟩
  rintro rfl
  obtain ⟨-, hok, hencode, hio⟩ := deliver_eq sink report hd
  have hall : ¬(written = report.printed ∧ sink.flushes = true) := fun hall => by
    cases hok.2 hall
  have hdocument : report.json <+: written := by
    by_contra hcut
    obtain ⟨e, he⟩ := hencode.2 hcut
    cases he
  obtain ⟨e, he⟩ := hio.2 ⟨hdocument, hall⟩
  cases he

theorem deliver_unlimited (report : SuiteReport) :
    deliver .unlimited report = (.ok report, report.printed) := by
  rw [← report.encode_append_newline]
  rfl

/-- A suite is unknown exactly if none is registered under its name, and then nothing is run or
written. Otherwise each of its cases is run, and how serving it ends tells how much of its report is
written. No report of which the end is missing is taken for a complete one. -/
theorem serve_torn_refused (r : Registry) (m : Machine) (sink : Sink) (suite : String)
    (place : Place) (w : World) :
    ((∃ name, ((r.serve m sink suite place).run w).1.1 = .error (.unknownSuite name)) ↔
        ∀ s ∈ r.suites, s.name ≠ suite) ∧
      ((∀ s ∈ r.suites, s.name ≠ suite) →
        (r.serve m sink suite place).run w = ((.error (.unknownSuite suite), []), w)) ∧
      (∀ s, r.get? suite = some s → ∃ outcomes result written v,
        (s.cases.mapM (TestCase.run m place)).run w = (outcomes, v) ∧
          outcomes.map (·.1.name) = s.cases.map (·.name) ∧
          (r.serve m sink suite place).run w = ((result, written), v) ∧
          let report : SuiteReport := ⟨suite, outcomes.map (·.1)⟩
          written <+: report.printed ∧
            (result = .ok report ↔ written = report.printed ∧ sink.flushes = true) ∧
            ((∃ e, result = .error (.encode e)) ↔ ¬report.json <+: written) ∧
            ((∃ e, result = .error (.io e)) ↔
              report.json <+: written ∧ ¬(written = report.printed ∧ sink.flushes = true))) ∧
      ∀ (report : SuiteReport) (p : Bytes), p <+: report.json → p ≠ report.json →
        ∀ asked stderr held, ∃ message,
          SuiteOutcome.ofExecution asked ⟨some 0, p, stderr, held⟩ = .exception message := by
  have hunknown : (∀ s ∈ r.suites, s.name ≠ suite) →
      (r.serve m sink suite place).run w = ((.error (.unknownSuite suite), []), w) := fun h => by
    rw [serve, get?_eq_none_iff.2 h]
    rfl
  have hserved : ∀ s, r.get? suite = some s → (r.serve m sink suite place).run w =
      let ran := (s.cases.mapM (TestCase.run m place)).run w
      (deliver sink ⟨suite, ran.1.map (·.1)⟩, ran.2) := fun s hs => by
    rw [serve, hs, ← name_of_get? hs]
    rfl
  refine ⟨⟨fun ⟨name, h⟩ => ?_, fun h => ⟨suite, by rw [hunknown h]⟩⟩, hunknown, fun s hs => ?_,
    fun report p hp hne asked stderr held =>
      SuiteOutcome.ofExecution_cut report hp hne asked stderr held⟩
  · rw [← get?_eq_none_iff]
    cases hs : r.get? suite with
    | none => rfl
    | some s =>
        rw [hserved s hs] at h
        exact absurd h (deliver_ne_unknownSuite sink _ name)
  · refine ⟨_, _, _, _, rfl, TestCase.name_mapM_run m place s.cases w, hserved s hs, ?_⟩
    exact deliver_eq sink _ rfl

/-- A sink that is full after the opening bracket. -/
theorem serve_torn_refused_full :
    let suite : TestSuite := ⟨"s", [⟨"a", .check fun _ _ => .passed⟩]⟩
    let r : Registry := ⟨[⟨"t", []⟩, suite]⟩
    let report : SuiteReport := ⟨"s", [⟨"a", none⟩]⟩
    let served := (r.serve .bare ⟨some 1, true⟩ "s" (.ok [])).run (.fresh ⟨[]⟩)
    r.get? "s" = some suite ∧ served.1 = (.error (.encode Sink.diskFull), [0x7b]) ∧
      ([0x7b] <+: report.printed ∧ ¬report.json <+: [0x7b]) ∧
      ∃ message, SuiteOutcome.ofExecution "s" ⟨some 0, [0x7b], [], 0⟩ = .exception message := by
  intro suite r report served
  obtain ⟨-, -, hserve, hcut⟩ :=
    serve_torn_refused r .bare ⟨some 1, true⟩ "s" (.ok []) (.fresh ⟨[]⟩)
  have hserved : served.1 = (.error (.encode Sink.diskFull), [0x7b]) := by
    have hfull : (⟨some 1, true⟩ : Sink).holds report.json.length = false := by decide +kernel
    have htaken : (⟨some 1, true⟩ : Sink).taken (report.json ++ Text.Utf8.encode "\n") = [0x7b] := by
      decide +kernel
    change deliver ⟨some 1, true⟩ report = _
    simp only [SuiteReport.json] at hfull htaken
    simp [deliver, Sink.writeLine, hfull, htaken, Except.map]
  obtain ⟨outcomes, result, written, v, hran, -, hrun, hsent, -, hencode, -⟩ := hserve suite rfl
  obtain ⟨rfl, rfl⟩ : .error (.encode Sink.diskFull) = result ∧ [0x7b] = written :=
    Prod.mk.inj (hserved.symm.trans (congrArg Prod.fst hrun))
  have houtcomes : outcomes = [(⟨"a", none⟩, 0)] := (congrArg Prod.fst hran).symm
  rw [houtcomes] at hsent hencode
  have hjson : ¬report.json <+: [0x7b] := hencode.1 ⟨_, rfl⟩
  refine ⟨rfl, hserved, ⟨hsent, hjson⟩, hcut report [0x7b] (by decide +kernel) (fun h => ?_) "s" [] 0⟩
  exact hjson (h ▸ List.prefix_refl _)

theorem run_serveWithin {r : Registry} {m : Machine} {limit : Nat} {place : Place}
    {w v : World} {s : TestSuite} {report : SuiteReport} {suite : String}
    (hs : r.get? suite = some s) (h : (s.runWithin m place limit).run w = (some report, v)) :
    (r.serveWithin m limit suite place).run w = (some (.ok report, report.printed), v) := by
  have hserve : (r.serveWithin m limit suite place).run w =
      let ran := (s.runWithin m place limit).run w
      (ran.1.map (deliver .unlimited), ran.2) := by
    rw [serveWithin, hs]
    rfl
  rw [hserve, h]
  simp only [Option.map_some, deliver_unlimited]

end Registry

end CommitMarking
