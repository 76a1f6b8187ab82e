/-
# The advisor pipeline

The writer thread of `SimulatedCluster` publishes telemetry snapshots, the loop of
`nn_advisor_harness.py` infers an alert from each, and `NNAdvisor` passes the alert on to the
supervisor.  The three share no memory and no lock, only files.  A snapshot is written to `path.tmp`
and renamed over `path`, so that a reader has a file open that nobody writes to any more;
`alert.json` is truncated and rewritten in place, under the eyes of the advisor.

Any of them may fail to open or to write a file, the rename may fail, and either process may end at
any point and be started again.

`Pipeline` holds the two files, the three parties and two histories, of the snapshots captured and
of the alerts written.  `writerStep`, `loopStep` and `advisorStep` are the steps of the parties, and
`step` is any of them or the passing of time.

* From the writer's side: a published snapshot is the beginning of the text of one that was captured
  (`WriterInv`), and only the whole of it parses.
* From the loop's side: an alert is written only when the model has answered it to such a snapshot
  (`AlertInv`).
* From the advisor's side: a read of `alert.json` that overlaps a rewriting sees a mixture of two
  texts, and a mixture that names a known alert names one of the two.
* `LoopInv` is about liveness: what the loop remembers of the modification time and of the last
  alert is enough to tell that the file is up to date when nothing changes any more.
-/
import Mathlib.Data.List.Infix
import FatpBalancer.JsonChars
import FatpBalancer.Lib.TornReads
import FatpBalancer.Sim.TelemetrySnapshot
import FatpBalancer.Supervisor.NNAdvisor

universe u v

namespace FatpBalancer

open Machine TornReads

/-! ## What the repository does not contain

The JSON library of the balancer, Python's `json` module and the trained model behind
`infer_from_snapshot` are parameters.  `Runtime.Documented` is what the two programs rely on; a
concrete runtime that meets it is given further down. -/

/-- The JSON libraries of both sides and the model behind `infer_from_snapshot`. -/
structure Runtime where
  json : JsonText (List Char) Rat
  /-- the message of an exception of `load_json_from_file` -/
  what : Option (List Char) → String
  /-- none for an exception -/
  loads : List Char → Option (JsonValue Rat)
  /-- none for an exception -/
  infer_from_snapshot : JsonValue Rat → Option String
  /-- what `json.dump({"active_alert": alert}, f)` writes -/
  dump_alert : String → List Char

/-- What comes before the alert in its file. -/
def alertHead : List Char := "\x7b\"active_alert\": \"".toList

/-- The whole of the file, as `write_alert_json` leaves it. -/
def alertText (alert : String) : List Char := alertHead ++ alert.toList ++ "\"\x7d".toList

/-- What the two sides rely on. -/
structure Runtime.Documented (rt : Runtime) : Prop where
  /-- the text of an object has to be complete -/
  loads_begun : ∀ (snap : TelemetrySnapshot) text, text <+: snap.formatJson rt.json false →
    (rt.loads text).isSome → text = snap.formatJson rt.json false
  /-- a label is one of the alerts that the data sets have -/
  labels : ∀ v alert, rt.infer_from_snapshot v = some alert → NNAdvisor.isKnownAlert alert = true
  dump_eq : ∀ alert, NNAdvisor.isKnownAlert alert = true → rt.dump_alert alert = alertText alert
  parse_alert : ∀ alert, NNAdvisor.isKnownAlert alert = true →
    rt.json.parse_json (alertText alert) = some (.object [("active_alert", .string alert)])
  parse_begun : ∀ text, text <+: alertHead → rt.json.parse_json text = none
  /-- with nothing more than the one member in the text, its value ends at the next quote -/
  parse_member : ∀ body root obj alert, (∀ c ∈ body, c ∉ [',', ':', '\\']) →
    rt.json.parse_json (alertHead ++ body) = some root → root.getObject = some obj →
    JsonValue.find obj "active_alert" = some (.string alert) → alert.toList ++ ['"'] <+: body

/-! ## The files and the three parties

Every access to a file that another party may see is a step of its own: opening, writing some
characters, closing and renaming.  A reader that has opened a file reads it character by character
while it changes. -/

/-- A file as `stat` and `open` show it. -/
structure SnapshotFile where
  content : List Char
  mtime : Nat

/-- The writer thread of `startSnapshotWriter`. -/
inductive WriterPc
  | capturing
  | opening (json : List Char)
  /-- `path.tmp` is open, and this is not written yet -/
  | writing (rest : List Char)
  | renaming

/-- The process in `cmd_loop`. -/
inductive LoopPc
  /-- before the next `stat` -/
  | sleeping
  | reading (mtime : Nat)
  | opening (alert : String)
  /-- `alert.json` is open, and this is not written yet -/
  | writing (alert : String) (rest : List Char)
  | ended

/-- The thread that calls `NNAdvisor::evaluate`. -/
inductive AdvisorPc
  | idle
  /-- `alert.json` is open, and this much of it is read -/
  | loading (text : List Char)

variable {F : Type u} [FloatOps F] {M : Type v}

/-- The directory, the three parties and what has happened so far. -/
structure Pipeline (M : Type v) (F : Type u) [FloatOps F] where
  now : Nat := 0
  tmp : Option SnapshotFile := none
  snapshot : Option SnapshotFile := none
  alertJson : Option (List Char) := none
  writer : WriterPc := .capturing
  loop : LoopPc := .sleeping
  last_mtime : Option Nat := none
  last_alert : Option String := none
  advisor : AdvisorPc := .idle
  supervisor : FeatureSupervisor M F
  /-- history: the snapshots that the writer has captured -/
  captured : List TelemetrySnapshot := []
  /-- history: the alerts that the loop has opened `alert.json` for -/
  alerts : List String := []

/-- What one of the parties, or the world around them, does next. -/
inductive PipelineEvent
  /-- time passes -/
  | tick
  | capture (snap : TelemetrySnapshot)
  | openTmp (ok : Bool)
  /-- this many characters get into `path.tmp` -/
  | writeTmp (n : Nat)
  /-- the stream is closed, whatever it has got rid of -/
  | closeTmp
  | rename (ok : Bool)
  | stat
  | read (ok : Bool)
  | openAlert (ok : Bool)
  | writeAlert (n : Nat)
  | closeAlert
  /-- Ctrl-C, an uncaught exception, or the end of the process for any other reason -/
  | endLoop
  | startLoop
  /-- `evaluate()` is called and opens the file, or fails to -/
  | evaluate (ok : Bool)
  | load (n : Nat)
  /-- the end of the file is reached -/
  | apply
  /-- the simulation is started again -/
  | restart

namespace Pipeline

/-- The writer's steps. -/
def writerStep (rt : Runtime) (s : Pipeline M F) : PipelineEvent → Option (Pipeline M F)
  | .capture snap =>
      match s.writer with
      | .capturing =>
          some { s with
            writer := .opening (snap.formatJson rt.json false)
            captured := snap :: s.captured }
      | _ => none
  | .openTmp ok =>
      match s.writer with
      | .opening json =>
          if ok then
            some { s with tmp := some { content := [], mtime := s.now }, writer := .writing json }
          -- `is_open` is false: the rename is tried all the same
          else some { s with writer := .renaming }
      | _ => none
  | .writeTmp n =>
      match s.writer, s.tmp with
      | .writing rest, some f =>
          some { s with
            tmp := some { content := f.content ++ rest.take n, mtime := s.now }
            writer := .writing (rest.drop n) }
      | _, _ => none
  | .closeTmp =>
      match s.writer with
      | .writing _ => some { s with writer := .renaming }
      | _ => none
  | .rename ok =>
      match s.writer with
      | .renaming =>
          match ok, s.tmp with
          | true, some f => some { s with tmp := none, snapshot := some f, writer := .capturing }
          | _, _ => some { s with writer := .capturing }
      | _ => none
  | _ => none

/-- The loop's steps. -/
def loopStep (rt : Runtime) (s : Pipeline M F) : PipelineEvent → Option (Pipeline M F)
  | .stat =>
      match s.loop with
      | .sleeping =>
          match s.snapshot with
          | none => some s
          | some f =>
              if s.last_mtime = some f.mtime then some s
              else some { s with loop := .reading f.mtime }
      | _ => none
  | .read ok =>
      match s.loop with
      | .reading mtime =>
          match (if ok then s.snapshot.bind fun f => rt.loads f.content else none) with
          | none => some { s with loop := .sleeping }
          | some snap =>
              match rt.infer_from_snapshot snap with
              | none => some { s with loop := .ended }
              | some alert =>
                  -- the time is the one of the `stat`, the text may be a later one
                  some { s with
                    last_mtime := some mtime
                    loop := if s.last_alert = some alert then .sleeping else .opening alert }
      | _ => none
  | .openAlert ok =>
      match s.loop with
      | .opening alert =>
          if ok then
            some { s with
              alertJson := some []
              loop := .writing alert (rt.dump_alert alert)
              alerts := alert :: s.alerts }
          else some { s with loop := .ended }
      | _ => none
  | .writeAlert n =>
      match s.loop, s.alertJson with
      | .writing alert rest, some text =>
          some { s with
            alertJson := some (text ++ rest.take n)
            loop := .writing alert (rest.drop n) }
      | _, _ => none
  | .closeAlert =>
      match s.loop with
      | .writing alert [] => some { s with last_alert := some alert, loop := .sleeping }
      | _ => none
  | .endLoop => some { s with loop := .ended }
  | .startLoop =>
      match s.loop with
      | .ended => some { s with loop := .sleeping, last_mtime := none, last_alert := none }
      | _ => none
  | _ => none

/-- What `load_json_from_file` makes of the text it has read. -/
def loaded (rt : Runtime) (text : List Char) : Except String (JsonValue Rat) :=
  match rt.json.parse_json text with
  | none => .error (rt.what (some text))
  | some root => .ok root

/-- The advisor's steps. -/
def advisorStep (rt : Runtime) (fm : FeatureManager M) (path : String) (s : Pipeline M F) :
    PipelineEvent → Option (Pipeline M F)
  | .evaluate ok =>
      match s.advisor with
      | .idle =>
          match (if ok then s.alertJson else none) with
          -- no such file, or it cannot be opened: the exception is caught
          | none =>
              some { s with
                supervisor := (NNAdvisor.evaluate fm path s.supervisor (.error (rt.what none))).2 }
          | some _ => some { s with advisor := .loading [] }
      | _ => none
  | .load n =>
      match s.advisor, s.alertJson with
      | .loading text, some content =>
          some { s with advisor := .loading (text ++ (content.drop text.length).take n) }
      | _, _ => none
  | .apply =>
      match s.advisor, s.alertJson with
      | .loading text, some content =>
          if content.length ≤ text.length then
            some { s with
              advisor := .idle
              supervisor := (NNAdvisor.evaluate fm path s.supervisor (loaded rt text)).2 }
          else none
      | _, _ => none
  | _ => none

/-- Time passes, or one party takes its step; a restart of the simulation leaves the files behind.
-/
def step (rt : Runtime) (fm : FeatureManager M) (path : String)
    (create : FeatureSupervisor M F) (s : Pipeline M F) (e : PipelineEvent) :
    Option (Pipeline M F) :=
  match e with
  | .tick => some { s with now := s.now + 1 }
  | .capture _ | .openTmp _ | .writeTmp _ | .closeTmp | .rename _ => s.writerStep rt e
  | .stat | .read _ | .openAlert _ | .writeAlert _ | .closeAlert | .endLoop | .startLoop =>
      s.loopStep rt e
  | .evaluate _ | .load _ | .apply => s.advisorStep rt fm path e
  | .restart =>
      some { s with writer := .capturing, advisor := .idle, supervisor := create }

end Pipeline

/-- A simulation whose supervisor is constructed on `balancer`, and the harness beside it, in a
directory that is empty at first. -/
def pipeline (rt : Runtime) (fm : FeatureManager M) (path : String) (balancer : GovernedBalancer F)
    (affinityMatrix : Bool) : Machine (Pipeline M F) PipelineEvent where
  init := { supervisor := .create fm balancer affinityMatrix }
  step := Pipeline.step rt fm path (.create fm balancer affinityMatrix)

/-! ## Every alert comes from a snapshot

The writer's half: no file that the loop can open holds anything but the beginning of a captured
snapshot's text. -/

variable {rt : Runtime} {fm : FeatureManager M} {path : String} {create : FeatureSupervisor M F}
  {s s' : Pipeline M F} {e : PipelineEvent}

/-- The model answers `alert` to the full text of a snapshot that was captured. -/
def Inferred (rt : Runtime) (captured : List TelemetrySnapshot) (alert : String) : Prop :=
  ∃ snap ∈ captured, ∃ v, rt.loads (snap.formatJson rt.json false) = some v ∧
    rt.infer_from_snapshot v = some alert

/-- The content is the beginning of a snapshot's text. -/
def Begun (rt : Runtime) (captured : List TelemetrySnapshot) (content : List Char) : Prop :=
  ∃ snap ∈ captured, content <+: snap.formatJson rt.json false

/-- A later capture takes nothing back. -/
theorem Begun.capture {captured : List TelemetrySnapshot} {content : List Char}
    (h : Begun rt captured content) (snap : TelemetrySnapshot) :
    Begun rt (snap :: captured) content := by
  obtain ⟨x, hx, hcontent⟩ := h
  exact ⟨x, List.mem_cons_of_mem _ hx, hcontent⟩

/-- What the snapshot files contain. -/
structure WriterInv (rt : Runtime) (s : Pipeline M F) : Prop where
  opening : ∀ json, s.writer = .opening json →
    ∃ snap ∈ s.captured, json = snap.formatJson rt.json false
  writing : ∀ rest f, s.writer = .writing rest → s.tmp = some f →
    ∃ snap ∈ s.captured, f.content ++ rest = snap.formatJson rt.json false
  tmp : ∀ f, s.tmp = some f → Begun rt s.captured f.content
  snapshot : ∀ f, s.snapshot = some f → Begun rt s.captured f.content

/-- A write lengthens what is in `path.tmp` by what comes next in the text. -/
theorem WriterInv.step (h : WriterInv rt s) (hstep : s.writerStep rt e = some s') :
    WriterInv rt s' := by
  cases e <;> simp only [Pipeline.writerStep, reduceCtorEq] at hstep
  case capture snap =>
    split at hstep <;> cases hstep
    refine ⟨?_, ?_, fun f hf => (h.tmp f hf).capture snap, fun f hf =>
      (h.snapshot f hf).capture snap⟩
    · intro json hjson
      cases hjson
      exact ⟨snap, List.mem_cons_self, rfl⟩
    · intro rest f hrest
      cases hrest
  case openTmp ok =>
    split at hstep
    · next json hpc =>
        obtain ⟨snap, hsnap, rfl⟩ := h.opening json hpc
        split at hstep <;> cases hstep
        · refine ⟨?_, ?_, ?_, h.snapshot⟩
          · intro json hjson
            cases hjson
          · intro rest f hrest hf
            cases hrest
            cases hf
            exact ⟨snap, hsnap, rfl⟩
          · intro f hf
            cases hf
            exact ⟨snap, hsnap, List.nil_prefix⟩
        · refine ⟨?_, ?_, h.tmp, h.snapshot⟩
          · intro json hjson
            cases hjson
          · intro rest f hrest
            cases hrest
    · cases hstep
  case writeTmp n =>
    split at hstep
    · next rest f hpc hf =>
        obtain ⟨snap, hsnap, htext⟩ := h.writing rest f hpc hf
        cases hstep
        have hnext : (f.content ++ rest.take n) ++ rest.drop n =
            snap.formatJson rt.json false := by
          rw [List.append_assoc, List.take_append_drop, htext]
        refine ⟨?_, ?_, ?_, h.snapshot⟩
        · intro json hjson
          cases hjson
        · intro rest' f' hrest hf'
          cases hrest
          cases hf'
          exact ⟨snap, hsnap, hnext⟩
        · intro f' hf'
          cases hf'
          exact ⟨snap, hsnap, _, hnext⟩
    · cases hstep
  case closeTmp =>
    split at hstep <;> cases hstep
    refine ⟨?_, ?_, h.tmp, h.snapshot⟩
    · intro json hjson
      cases hjson
    · intro rest f hrest
      cases hrest
  case rename ok =>
    split at hstep
    · split at hstep <;> cases hstep
      · next f hf =>
          refine ⟨?_, ?_, ?_, ?_⟩
          · intro json hjson
            cases hjson
          · intro rest f hrest
            cases hrest
          · intro f' hf'
            cases hf'
          · intro f' hf'
            cases hf'
            exact h.tmp f hf
      · refine ⟨?_, ?_, h.tmp, h.snapshot⟩
        · intro json hjson
          cases hjson
        · intro rest f hrest
          cases hrest
    · cases hstep

/-! ## What a torn read can be taken for

The texts of two alerts agree in everything before the alert, so a mixture of the two is that common
beginning followed by a mixture of the rest.  It parses as an object with an alert only when the
mixture of the rest is one of the two, since no alert is the beginning of another one. -/

/-- What `isKnownAlert` lets through. -/
def knownAlerts : List String := ["", kAlertNone, kAlertOverload, kAlertLatency, kAlertNodeFault]

/-- The list is the predicate. -/
theorem mem_knownAlerts {alert : String} (h : NNAdvisor.isKnownAlert alert = true) :
    alert ∈ knownAlerts := by
  simp only [NNAdvisor.isKnownAlert, Bool.or_eq_true, beq_iff_eq] at h
  rcases h with (((rfl | rfl) | rfl) | rfl) | rfl <;> decide

/-- Each alert has a character that no other alert has at its place. -/
theorem exists_mark : ∀ alert ∈ knownAlerts, ∃ k < (alertHead ++ (alert.toList ++ ['"'])).length,
    ∀ other ∈ knownAlerts, (alertText other)[k]? = (alertText alert)[k]? → other = alert := by
  decide +kernel

/-- An alert's text has no character that would begin another member. -/
theorem alertText_plain : ∀ alert ∈ knownAlerts, ∀ c ∈ alert.toList ++ "\"\x7d".toList,
    c ∉ [',', ':', '\\'] := by
  have h : knownAlerts.all fun alert =>
      (alert.toList ++ "\"\x7d".toList).all fun c => decide (c ∉ [',', ':', '\\']) := by
    decide +kernel
  intro alert halert c hc
  exact of_decide_eq_true (List.all_eq_true.mp (List.all_eq_true.mp h alert halert) c hc)

section Torn

variable {texts : List (List Char)} {text : List Char}

/-- After the head, a mixture of alert texts is free of separators. -/
theorem mixed_plain (hknown : ∀ t ∈ texts, ∃ alert ∈ knownAlerts, t = alertText alert)
    {body : List Char} (h : Mixed texts (alertHead ++ body)) :
    ∀ c ∈ body, c ∉ [',', ':', '\\'] := by
  intro c hc
  obtain ⟨k, hk⟩ := List.getElem?_of_mem hc
  obtain ⟨t, ht, htc⟩ := h (alertHead.length + k) c (by
    rw [List.getElem?_append_right (Nat.le_add_right ..), Nat.add_sub_cancel_left]
    exact hk)
  obtain ⟨alert, halert, rfl⟩ := hknown t ht
  rw [alertText, List.append_assoc, List.getElem?_append_right (Nat.le_add_right ..),
    Nat.add_sub_cancel_left] at htc
  exact alertText_plain alert halert c (List.mem_of_getElem? htc)

/-- **A torn read is harmless.**  However the texts of alerts are mixed by rewriting the file under
the reader, the only known alerts that can be read from the mixture are among those written. -/
theorem mem_of_readAlert (hrt : rt.Documented)
    (hknown : ∀ t ∈ texts, ∃ alert ∈ knownAlerts, t = alertText alert) (h : Mixed texts text)
    {alert : String}
    (hread : NNAdvisor.readAlert path (Pipeline.loaded rt text) = .ok alert) :
    alertText alert ∈ texts := by
  obtain ⟨root, obj, hloaded, hobj, hfind, halert⟩ := NNAdvisor.readAlert_eq_ok.mp hread
  have hparse : rt.json.parse_json text = some root := by
    rw [Pipeline.loaded] at hloaded
    split at hloaded
    · cases hloaded
    · next hparse =>
        cases hloaded
        exact hparse
  have hhead : ∀ t ∈ texts, alertHead <+: t := by
    intro t ht
    obtain ⟨other, -, rfl⟩ := hknown t ht
    rw [alertText, List.append_assoc]
    exact List.prefix_append ..
  rcases h.head hhead with hbegun | ⟨body, rfl⟩
  · rw [hrt.parse_begun text hbegun] at hparse
    cases hparse
  · -- the alert stands in the text as it was written, mark and all
    obtain ⟨rest, hrest⟩ :=
      hrt.parse_member body root obj alert (mixed_plain hknown h) hparse hobj hfind
    obtain ⟨k, hk, hmark⟩ := exists_mark alert (mem_knownAlerts halert)
    have hwritten : alertText alert = alertHead ++ (alert.toList ++ ['"']) ++ ['\x7d'] := by
      have htail : "\"\x7d".toList = ['"'] ++ ['\x7d'] := by decide +kernel
      rw [alertText, htail]
      simp only [List.append_assoc]
    have hgot : alertHead ++ body = alertHead ++ (alert.toList ++ ['"']) ++ rest := by
      rw [← hrest]
      simp only [List.append_assoc]
    refine h.mem (k := k) ⟨?_, ?_⟩ ?_
    · rw [hwritten, List.length_append]
      omega
    · intro t ht htk
      obtain ⟨other, hother, rfl⟩ := hknown t ht
      rw [hmark other hother htk]
    · rw [hgot, hwritten, List.getElem?_append_left hk, List.getElem?_append_left hk]

end Torn

/-! ## A runtime that is as documented

The printer and the parser of `JsonChars` on both sides.  It shows that the documented behaviour can
be had, and is what the runs below are computed with. -/

section Chars

open JsonChars

/-- The beginning of the file, character by character. -/
theorem alertHead_eq :
    alertHead = ['\x7b', '"', 'a', 'c', 't', 'i', 'v', 'e', '_', 'a', 'l', 'e', 'r', 't', '"', ':',
      ' ', '"'] := by
  decide +kernel

/-- The parser gets through the beginning of the file and is left with the alert. -/
theorem parseValue_alertHead (n : Nat) (body : List Char) :
    parseValue (n + 2) (alertHead ++ body) =
      (parseChars body).bind fun p =>
        (parseTail (parseMember (parseValue (n + 1))) '\x7d' (n + 1) p.2).map fun q =>
          (.object (("active_alert", .string (String.ofList p.1)) :: q.1), q.2) := by
  have hkey : String.ofList ['a', 'c', 't', 'i', 'v', 'e', '_', 'a', 'l', 'e', 'r', 't'] =
      "active_alert" := by
    decide +kernel
  have hspace : skipWs (' ' :: '"' :: body) = '"' :: body := rfl
  rw [alertHead_eq]
  cases hbody : parseChars body with
  | none =>
      simp [parseValue, skipWs_cons (c := '\x7b') rfl, parseList, skipWs_cons (c := '"') rfl,
        parseMember, parseChars, skipWs_cons (c := ':') rfl, hspace, hbody]
  | some p =>
      simp [parseValue, skipWs_cons (c := '\x7b') rfl, parseList, skipWs_cons (c := '"') rfl,
        parseMember, parseChars, skipWs_cons (c := ':') rfl, hspace, hbody, hkey]
      rfl

/-- What the parser makes of the beginning and any rest. -/
theorem parse_alertHead_append {body : List Char} {root : JsonValue Rat}
    (h : parse (alertHead ++ body) = some root) :
    ∃ alert rest fs, parseChars body = some (alert, rest) ∧
      root = .object (("active_alert", .string (String.ofList alert)) :: fs) := by
  have hlength : (alertHead ++ body).length = (body.length + 16) + 2 := by
    rw [List.length_append, alertHead_eq]
    simp only [List.length_cons, List.length_nil]
    omega
  rw [parse, hlength, parseValue_alertHead] at h
  split at h
  · next v rest hv =>
      obtain ⟨⟨alert, rest'⟩, halert, hv⟩ := Option.bind_eq_some_iff.mp hv
      obtain ⟨⟨fs, _⟩, _, heq⟩ := Option.map_eq_some_iff.mp hv
      obtain ⟨rfl, -⟩ := Prod.mk.inj heq
      split at h
      · cases h
        exact ⟨alert, rest', fs, halert, rfl⟩
      · cases h
  · cases h

/-- Without a backslash, a string ends at the next quote. -/
theorem eq_of_parseChars {body s rest : List Char} (hplain : '\\' ∉ body)
    (h : parseChars body = some (s, rest)) : body = s ++ '"' :: rest := by
  induction body generalizing s with
  | nil => cases h
  | cons c cs ih =>
      rw [List.mem_cons, not_or] at hplain
      obtain ⟨hc, hcs⟩ := hplain
      by_cases hquote : c = '"'
      · subst hquote
        cases h
        rfl
      · rw [parseChars] at h
        · obtain ⟨⟨s', rest'⟩, hs', heq⟩ := Option.map_eq_some_iff.mp h
          obtain ⟨rfl, rfl⟩ := Prod.mk.inj heq
          rw [ih hcs hs', List.cons_append]
        · exact hquote
        · intro _ _ h
          exact absurd h.symm hc

/-- Both sides read and print JSON as `JsonText.chars` does, and the model's answer is whether all
nodes are overloaded. -/
def charsRuntime : Runtime where
  json := .chars
  what _ := "parse error"
  loads text :=
    match parse text with
    | some (.object fs) => if print (.object fs) = text then some (.object fs) else none
    | _ => none
  infer_from_snapshot v :=
    match v.getObject.bind fun obj => JsonValue.find obj "overloadedFraction" with
    | some (.int64 0) => some kAlertNone
    | some _ => some kAlertOverload
    | none => none
  dump_alert := alertText

/-- All of the documented behaviour holds of it. -/
theorem charsRuntime_documented : charsRuntime.Documented where
  loads_begun snap text hbegun hloads := by
    simp only [charsRuntime] at hloads
    split at hloads
    · next fs _ =>
        split at hloads
        · next hprint =>
            rw [← hprint] at hbegun ⊢
            exact print_prefix hbegun
        · cases hloads
    · cases hloads
  labels v alert h := by
    simp only [charsRuntime] at h
    split at h <;> cases h <;> decide
  dump_eq alert _ := rfl
  parse_alert alert h := by
    have hchars : ∀ alert ∈ knownAlerts, alertText alert =
        alertHead ++ (printChars alert.toList ++ ['\x7d']) := by decide +kernel
    have hlength : (alertText alert).length = ((printChars alert.toList).length + 17) + 2 := by
      rw [hchars alert (mem_knownAlerts h), alertHead_eq]
      simp only [List.length_append, List.length_cons, List.length_nil]
      omega
    change parse (alertText alert) = _
    rw [parse, hlength, hchars alert (mem_knownAlerts h), parseValue_alertHead,
      parseChars_printChars, Option.bind_some]
    simp [parseTail, skipWs]
  parse_begun text h := by
    have hnone : ∀ text ∈ alertHead.inits, parse text = none := by
      intro text htext
      have : alertHead.inits.all fun text => (parse text).isNone := by decide +kernel
      exact Option.isNone_iff_eq_none.mp (List.all_eq_true.mp this text htext)
    exact hnone text ((List.mem_inits ..).mpr h)
  parse_member body root obj alert hplain hparse hobj hfind := by
    obtain ⟨s, rest, fs, hs, rfl⟩ := parse_alertHead_append hparse
    cases hobj
    cases hfind
    have hbody := eq_of_parseChars (fun h => by simpa using hplain _ h) hs
    rw [hbody, String.toList_ofList]
    exact ⟨rest, by simp⟩

end Chars

/-! ## From snapshot to supervisor

The other two halves: the loop turns a snapshot into an alert, and the advisor turns the alert's
file into a call of `applyChanges`. -/

open FeatureSupervisor (currentAlert)

/-- Where the alerts come from, on their way to the supervisor. -/
structure AlertInv (rt : Runtime) (s : Pipeline M F) : Prop where
  opening : ∀ alert, s.loop = .opening alert → Inferred rt s.captured alert
  writing : ∀ alert rest text, s.loop = .writing alert rest → s.alertJson = some text →
    alert ∈ s.alerts ∧ text ++ rest = rt.dump_alert alert
  alerts : ∀ alert ∈ s.alerts, Inferred rt s.captured alert
  alertJson : ∀ text, s.alertJson = some text → Mixed (s.alerts.map rt.dump_alert) text
  loading : ∀ text, s.advisor = .loading text → Mixed (s.alerts.map rt.dump_alert) text
  supervisor : currentAlert s.supervisor.mActiveAlert = kAlertNone ∨
    ∃ alert ∈ s.alerts, currentAlert s.supervisor.mActiveAlert = currentAlert alert

/-- What the writer does not touch. -/
structure SameAlerts (s s' : Pipeline M F) : Prop where
  loop : s'.loop = s.loop
  alertJson : s'.alertJson = s.alertJson
  alerts : s'.alerts = s.alerts
  advisor : s'.advisor = s.advisor
  supervisor : s'.supervisor = s.supervisor
  captured : s.captured ⊆ s'.captured

/-- The writer touches neither the alert's file nor the two parties behind it. -/
theorem writerStep_sameAlerts (hstep : s.writerStep rt e = some s') : SameAlerts s s' := by
  cases e <;> simp only [Pipeline.writerStep, reduceCtorEq] at hstep
  case capture snap =>
    split at hstep <;> cases hstep
    exact ⟨rfl, rfl, rfl, rfl, rfl, List.subset_cons_self ..⟩
  case openTmp ok =>
    split at hstep
    · split at hstep <;> cases hstep <;> exact ⟨rfl, rfl, rfl, rfl, rfl, List.Subset.refl _⟩
    · cases hstep
  case rename ok =>
    split at hstep
    · split at hstep <;> cases hstep <;> exact ⟨rfl, rfl, rfl, rfl, rfl, List.Subset.refl _⟩
    · cases hstep
  all_goals
    split at hstep <;> cases hstep
    exact ⟨rfl, rfl, rfl, rfl, rfl, List.Subset.refl _⟩

/-- What was inferred from the snapshots so far stays inferred. -/
theorem Inferred.mono {captured captured' : List TelemetrySnapshot} {alert : String}
    (h : Inferred rt captured alert) (hsub : captured ⊆ captured') :
    Inferred rt captured' alert := by
  obtain ⟨snap, hsnap, hv⟩ := h
  exact ⟨snap, hsub hsnap, hv⟩

/-- The writer adds to the captured snapshots only. -/
theorem AlertInv.writer (h : AlertInv rt s) (hsame : SameAlerts s s') : AlertInv rt s' where
  opening alert hpc := (h.opening alert (hsame.loop ▸ hpc)).mono hsame.captured
  writing alert rest text hpc htext := by
    rw [hsame.alerts]
    exact h.writing alert rest text (hsame.loop ▸ hpc) (hsame.alertJson ▸ htext)
  alerts alert halert := (h.alerts alert (hsame.alerts ▸ halert)).mono hsame.captured
  alertJson text htext := by
    rw [hsame.alerts]
    exact h.alertJson text (hsame.alertJson ▸ htext)
  loading text hpc := by
    rw [hsame.alerts]
    exact h.loading text (hsame.advisor ▸ hpc)
  supervisor := by
    rw [hsame.alerts, hsame.supervisor]
    exact h.supervisor

/-- A text that the loop can read is the full text of a captured snapshot. -/
theorem inferred_of_read (hrt : rt.Documented) (hw : WriterInv rt s) {f : SnapshotFile}
    (hf : s.snapshot = some f) {v : JsonValue Rat} (hloads : rt.loads f.content = some v)
    {alert : String} (hinfer : rt.infer_from_snapshot v = some alert) :
    Inferred rt s.captured alert := by
  obtain ⟨snap, hsnap, hcontent⟩ := hw.snapshot f hf
  have hwhole := hrt.loads_begun snap f.content hcontent (by rw [hloads]; rfl)
  exact ⟨snap, hsnap, v, hwhole ▸ hloads, hinfer⟩

/-- The alert that the loop is about to write, or writing. -/
def LoopPc.alert? : LoopPc → Option String
  | .opening alert | .writing alert _ => some alert
  | _ => none

/-- The loop does something else than writing an alert. -/
theorem AlertInv.pause (h : AlertInv rt s) {pc : LoopPc} (hpc : pc.alert? = none)
    (mtime : Option Nat) (alert : Option String) :
    AlertInv rt { s with loop := pc, last_mtime := mtime, last_alert := alert } := by
  refine ⟨?_, ?_, h.alerts, h.alertJson, h.loading, h.supervisor⟩
  · rintro x rfl
    cases hpc
  · rintro x rest text rfl
    cases hpc

/-- The loop opens the file for an alert that it has just inferred. -/
theorem AlertInv.loopStep (h : AlertInv rt s) (hrt : rt.Documented) (hw : WriterInv rt s)
    (hstep : s.loopStep rt e = some s') : AlertInv rt s' := by
  cases e <;> simp only [Pipeline.loopStep, reduceCtorEq] at hstep
  case stat =>
    split at hstep
    · split at hstep
      · cases hstep
        exact h
      · split at hstep <;> cases hstep
        · exact h
        · exact h.pause rfl _ _
    · cases hstep
  case read ok =>
    split at hstep
    · split at hstep
      · cases hstep
        exact h.pause rfl _ _
      · next v hv =>
          obtain ⟨f, hf, hloads⟩ : ∃ f, s.snapshot = some f ∧ rt.loads f.content = some v := by
            split at hv
            · exact Option.bind_eq_some_iff.mp hv
            · cases hv
          split at hstep
          · cases hstep
            exact h.pause rfl _ _
          · next alert hinfer =>
              have hinferred := inferred_of_read hrt hw hf hloads hinfer
              cases hstep
              split
              · exact h.pause rfl _ _
              · refine ⟨?_, ?_, h.alerts, h.alertJson, h.loading, h.supervisor⟩
                · intro x hopening
                  cases hopening
                  exact hinferred
                · intro x rest text hwriting
                  cases hwriting
    · cases hstep
  case openAlert ok =>
    split at hstep
    · next alert hpc =>
        split at hstep <;> cases hstep
        · refine ⟨?_, ?_, ?_, ?_, ?_, ?_⟩
          · intro x hopening
            cases hopening
          · intro x rest text hwriting htext
            cases hwriting
            cases htext
            exact ⟨List.mem_cons_self, rfl⟩
          · intro x hx
            rcases List.mem_cons.mp hx with rfl | hx
            · exact h.opening x hpc
            · exact h.alerts x hx
          · intro text htext
            cases htext
            exact .nil
          · intro text hloading
            exact (h.loading text hloading).mono (List.subset_cons_self ..)
          · rcases h.supervisor with hidle | ⟨x, hx, hactive⟩
            · exact .inl hidle
            · exact .inr ⟨x, List.mem_cons_of_mem _ hx, hactive⟩
        · exact h.pause rfl _ _
    · cases hstep
  case writeAlert n =>
    split at hstep
    · next alert rest text hpc htext =>
        cases hstep
        obtain ⟨halert, hall⟩ := h.writing alert rest text hpc htext
        have hnext : (text ++ rest.take n) ++ rest.drop n = rt.dump_alert alert := by
          rw [List.append_assoc, List.take_append_drop, hall]
        refine ⟨?_, ?_, h.alerts, ?_, h.loading, h.supervisor⟩
        · intro x hopening
          cases hopening
        · intro x rest' text' hwriting htext'
          cases hwriting
          cases htext'
          exact ⟨halert, hnext⟩
        · intro text' htext'
          cases htext'
          exact Mixed.of_begun (List.mem_map_of_mem halert) hnext
    · cases hstep
  case closeAlert =>
    split at hstep <;> cases hstep
    exact h.pause rfl _ _
  case endLoop =>
    cases hstep
    exact h.pause rfl _ _
  case startLoop =>
    split at hstep <;> cases hstep
    exact h.pause rfl _ _

/-- The alert that `evaluate` passes on has been written. -/
theorem AlertInv.mem_of_readAlert (h : AlertInv rt s) (hrt : rt.Documented) {text : List Char}
    (hloading : s.advisor = .loading text) {alert : String}
    (hread : NNAdvisor.readAlert path (Pipeline.loaded rt text) = .ok alert) :
    alert ∈ s.alerts := by
  have hdump : ∀ x ∈ s.alerts, x ∈ knownAlerts ∧ rt.dump_alert x = alertText x := by
    intro x hx
    obtain ⟨snap, -, v, -, hinfer⟩ := h.alerts x hx
    have hknown := hrt.labels v x hinfer
    exact ⟨mem_knownAlerts hknown, hrt.dump_eq x hknown⟩
  have hknown : ∀ t ∈ s.alerts.map rt.dump_alert, ∃ x ∈ knownAlerts, t = alertText x := by
    intro t ht
    obtain ⟨x, hx, rfl⟩ := List.mem_map.mp ht
    exact ⟨x, (hdump x hx).1, (hdump x hx).2⟩
  obtain ⟨x, hx, htext⟩ := List.mem_map.mp
    (FatpBalancer.mem_of_readAlert hrt hknown (h.loading text hloading) hread)
  obtain ⟨-, -, -, -, -, halert⟩ := NNAdvisor.readAlert_eq_ok.mp hread
  rw [(hdump x hx).2] at htext
  -- the text of an alert tells it
  obtain ⟨k, -, hmark⟩ := exists_mark alert (mem_knownAlerts halert)
  rw [← hmark x (hdump x hx).1 (by rw [htext])]
  exact hx

/-- The advisor applies an alert that it has read in the file. -/
theorem AlertInv.advisorStep (h : AlertInv rt s) (hrt : rt.Documented)
    (hstep : s.advisorStep rt fm path e = some s') : AlertInv rt s' := by
  cases e <;> simp only [Pipeline.advisorStep, reduceCtorEq] at hstep
  case evaluate ok =>
    split at hstep
    · split at hstep <;> cases hstep
      · exact h
      · refine ⟨h.opening, h.writing, h.alerts, h.alertJson, ?_, h.supervisor⟩
        intro text hloading
        cases hloading
        exact .nil
    · cases hstep
  case load n =>
    split at hstep
    · next text content hpc hcontent =>
        cases hstep
        refine ⟨h.opening, h.writing, h.alerts, h.alertJson, ?_, h.supervisor⟩
        intro text' hloading
        cases hloading
        exact (h.loading text hpc).read (h.alertJson content hcontent) n
    · cases hstep
  case apply =>
    split at hstep
    · next text content hpc hcontent =>
        split at hstep <;> cases hstep
        refine ⟨h.opening, h.writing, h.alerts, h.alertJson, ?_, ?_⟩
        · intro text' hloading
          cases hloading
        · cases hread : NNAdvisor.readAlert path (Pipeline.loaded rt text) with
          | error message =>
              simp only [NNAdvisor.evaluate, hread]
              exact h.supervisor
          | ok alert =>
              simp only [NNAdvisor.evaluate, hread]
              obtain ⟨-, -, -, -, -, hknown⟩ := NNAdvisor.readAlert_eq_ok.mp hread
              have hfeature := NNAdvisor.isAlertFeature_of_isKnownAlert hknown
              rcases s.supervisor.applyChanges_alert fm hfeature with ⟨-, hkept⟩ | ⟨-, happlied⟩
              · rw [hkept]
                exact h.supervisor
              · exact .inr ⟨alert, h.mem_of_readAlert hrt hpc hread, happlied⟩
    · cases hstep

/-- What the loop and the advisor do not touch. -/
structure SameSnapshots (s s' : Pipeline M F) : Prop where
  writer : s'.writer = s.writer
  tmp : s'.tmp = s.tmp
  snapshot : s'.snapshot = s.snapshot
  captured : s'.captured = s.captured

/-- The writer's invariant is about its own files. -/
theorem WriterInv.frame (h : WriterInv rt s) (hsame : SameSnapshots s s') : WriterInv rt s' := by
  refine ⟨?_, ?_, ?_, ?_⟩
  · rw [hsame.writer, hsame.captured]
    exact h.opening
  · rw [hsame.writer, hsame.tmp, hsame.captured]
    exact h.writing
  · rw [hsame.tmp, hsame.captured]
    exact h.tmp
  · rw [hsame.snapshot, hsame.captured]
    exact h.snapshot

/-- The loop only reads the snapshots. -/
theorem loopStep_sameSnapshots (hstep : s.loopStep rt e = some s') : SameSnapshots s s' := by
  cases e <;> simp only [Pipeline.loopStep, reduceCtorEq] at hstep
  case stat =>
    split at hstep
    · split at hstep
      · cases hstep
        exact ⟨rfl, rfl, rfl, rfl⟩
      · split at hstep <;> cases hstep <;> exact ⟨rfl, rfl, rfl, rfl⟩
    · cases hstep
  case read ok =>
    split at hstep
    · split at hstep
      · cases hstep
        exact ⟨rfl, rfl, rfl, rfl⟩
      · split at hstep <;> cases hstep <;> exact ⟨rfl, rfl, rfl, rfl⟩
    · cases hstep
  case openAlert ok =>
    split at hstep
    · split at hstep <;> cases hstep <;> exact ⟨rfl, rfl, rfl, rfl⟩
    · cases hstep
  case endLoop =>
    cases hstep
    exact ⟨rfl, rfl, rfl, rfl⟩
  all_goals
    split at hstep <;> cases hstep
    exact ⟨rfl, rfl, rfl, rfl⟩

/-- The advisor does not even do that. -/
theorem advisorStep_sameSnapshots (hstep : s.advisorStep rt fm path e = some s') :
    SameSnapshots s s' := by
  cases e <;> simp only [Pipeline.advisorStep, reduceCtorEq] at hstep
  case load n =>
    split at hstep <;> cases hstep
    exact ⟨rfl, rfl, rfl, rfl⟩
  all_goals
    split at hstep
    · split at hstep <;> cases hstep <;> exact ⟨rfl, rfl, rfl, rfl⟩
    · cases hstep

/-- Whose step it is. -/
theorem pipeline_step (hstep : s.step rt fm path create e = some s') :
    s.writerStep rt e = some s' ∨ s.loopStep rt e = some s' ∨
      s.advisorStep rt fm path e = some s' ∨ (∃ now, s' = { s with now := now }) ∨
        s' = { s with writer := .capturing, advisor := .idle, supervisor := create } := by
  cases e <;> simp only [Pipeline.step] at hstep
  case tick =>
    cases hstep
    exact .inr (.inr (.inr (.inl ⟨_, rfl⟩)))
  case restart =>
    cases hstep
    exact .inr (.inr (.inr (.inr rfl)))
  case capture | openTmp | writeTmp | closeTmp | rename => exact .inl hstep
  case evaluate | load | apply => exact .inr (.inr (.inl hstep))
  all_goals exact .inr (.inl hstep)

section Runs

variable {balancer : GovernedBalancer F} {affinityMatrix : Bool}

/-- Both invariants, in every reachable state. -/
theorem pipelineInv_reach (hrt : rt.Documented)
    (hs : (pipeline rt fm path balancer affinityMatrix).Reach anyEvent s) :
    WriterInv rt s ∧ AlertInv rt s := by
  refine hs.invariant (I := fun s => WriterInv rt s ∧ AlertInv rt s) ⟨?_, ?_⟩ ?_
  · refine ⟨?_, ?_, ?_, ?_⟩
    · intro json hpc
      cases hpc
    · intro rest f hpc
      cases hpc
    · intro f hf
      cases hf
    · intro f hf
      cases hf
  · refine ⟨?_, ?_, ?_, ?_, ?_, .inl rfl⟩
    · intro alert hpc
      cases hpc
    · intro alert rest text hpc
      cases hpc
    · intro alert halert
      cases halert
    · intro text htext
      cases htext
    · intro text hpc
      cases hpc
  · intro s s' e _ ⟨hw, ha⟩ _ hstep
    rcases pipeline_step hstep with hstep | hstep | hstep | ⟨now, rfl⟩ | rfl
    · exact ⟨hw.step hstep, ha.writer (writerStep_sameAlerts hstep)⟩
    · exact ⟨hw.frame (loopStep_sameSnapshots hstep), ha.loopStep hrt hw hstep⟩
    · exact ⟨hw.frame (advisorStep_sameSnapshots hstep), ha.advisorStep hrt hstep⟩
    · exact ⟨⟨hw.opening, hw.writing, hw.tmp, hw.snapshot⟩,
        ⟨ha.opening, ha.writing, ha.alerts, ha.alertJson, ha.loading, ha.supervisor⟩⟩
    · refine ⟨⟨?_, ?_, hw.tmp, hw.snapshot⟩,
        ⟨ha.opening, ha.writing, ha.alerts, ha.alertJson, ?_, .inl rfl⟩⟩
      · intro json hpc
        cases hpc
      · intro rest f hpc
        cases hpc
      · intro text hpc
        cases hpc

/-- **What the supervisor is told was inferred from a snapshot that was taken.**  In every reachable
state, whatever was torn, lost or restarted on the way, the active alert is the idle one or the one
that the model answers to the complete text of some captured snapshot. -/
theorem active_alert_inferred (hrt : rt.Documented)
    (hs : (pipeline rt fm path balancer affinityMatrix).Reach anyEvent s) :
    currentAlert s.supervisor.mActiveAlert = kAlertNone ∨
      ∃ alert, Inferred rt s.captured alert ∧
        currentAlert s.supervisor.mActiveAlert = currentAlert alert := by
  obtain ⟨-, h⟩ := pipelineInv_reach hrt hs
  rcases h.supervisor with hidle | ⟨alert, halert, hactive⟩
  · exact .inl hidle
  · exact .inr ⟨alert, h.alerts alert halert, hactive⟩

/-- One snapshot on its way; the alert is read, at the second try, while it is being written. -/
def alertScript : List PipelineEvent :=
  [.capture { activeNodes := 0, overloadedFraction := 1 }, .openTmp true, .writeTmp 100,
    .writeTmp 1000, .closeTmp, .tick, .rename true, .stat, .read true, .openAlert true,
    .writeAlert 20, .evaluate false, .evaluate true, .load 10, .writeAlert 100, .closeAlert,
    .load 100, .apply]

theorem active_alert_inferred_torn :
    charsRuntime.Documented ∧
      ∃ s, (pipeline charsRuntime FeatureGraph.manager "alert.json" emptyBalancer false).Reach
          anyEvent s ∧
        currentAlert s.supervisor.mActiveAlert ≠ kAlertNone ∧
        (currentAlert s.supervisor.mActiveAlert = kAlertNone ∨
          ∃ alert, Inferred charsRuntime s.captured alert ∧
            currentAlert s.supervisor.mActiveAlert = currentAlert alert) := by
  obtain ⟨s, hs, halert⟩ :=
    (pipeline charsRuntime FeatureGraph.manager "alert.json" emptyBalancer false).exists_reach
      anyEvent alertScript (fun s => currentAlert s.supervisor.mActiveAlert != kAlertNone)
      (by decide +kernel)
  exact ⟨charsRuntime_documented, s, hs, by simpa using halert,
    active_alert_inferred charsRuntime_documented hs⟩

end Runs

/-! ## No snapshot is missed

The loop recognises a new snapshot by its modification time, so two snapshots within one tick of the
clock cannot be told apart; `DistinctTimes` rules that out. -/

/-- The modification time tells a snapshot from the one it replaces. -/
def DistinctTimes (s : Pipeline M F) (e : PipelineEvent) : Prop :=
  match e, s.tmp, s.snapshot with
  | .rename true, some f, some g => g.mtime < f.mtime
  | _, _, _ => True

instance (s : Pipeline M F) (e : PipelineEvent) : Decidable (DistinctTimes s e) := by
  unfold DistinctTimes
  split <;> infer_instance

/-- The alert that is in the file, or on its way there. -/
def Pipeline.latest (s : Pipeline M F) : Option String := s.loop.alert?.or s.last_alert

/-- What the loop knows of the published snapshot. -/
structure LoopInv (rt : Runtime) (s : Pipeline M F) : Prop where
  reading : ∀ mtime, s.loop = .reading mtime → ∃ f, s.snapshot = some f ∧ mtime ≤ f.mtime
  seen : ∀ mtime, s.last_mtime = some mtime → ∃ f, s.snapshot = some f ∧ mtime ≤ f.mtime
  /-- the snapshot that was last seen is the one that the latest alert was inferred from -/
  inferred : ∀ f, s.loop ≠ .ended → s.snapshot = some f → s.last_mtime = some f.mtime →
    ∃ v alert, rt.loads f.content = some v ∧ rt.infer_from_snapshot v = some alert ∧
      s.latest = some alert
  writing : ∀ alert rest, s.loop = .writing alert rest →
    ∃ text, s.alertJson = some text ∧ text ++ rest = rt.dump_alert alert
  written : ∀ alert, s.loop ≠ .ended → (∀ x rest, s.loop ≠ .writing x rest) →
    s.last_alert = some alert → s.alertJson = some (rt.dump_alert alert)

/-- What only the loop writes. -/
structure SameLoop (s s' : Pipeline M F) : Prop where
  loop : s'.loop = s.loop
  last_mtime : s'.last_mtime = s.last_mtime
  last_alert : s'.last_alert = s.last_alert
  alertJson : s'.alertJson = s.alertJson

/-- The loop's invariant is about what only the loop writes, and the published snapshot. -/
theorem LoopInv.frame (h : LoopInv rt s) (hsame : SameLoop s s')
    (hsnapshot : s'.snapshot = s.snapshot) : LoopInv rt s' := by
  obtain ⟨hloop, hmtime, halert, hjson⟩ := hsame
  refine ⟨?_, ?_, ?_, ?_, ?_⟩
  · rw [hloop, hsnapshot]
    exact h.reading
  · rw [hmtime, hsnapshot]
    exact h.seen
  · rw [Pipeline.latest, hloop, hsnapshot, hmtime, halert]
    exact h.inferred
  · rw [hloop, hjson]
    exact h.writing
  · rw [hloop, halert, hjson]
    exact h.written

/-- A new snapshot has a time that the loop has not seen. -/
theorem LoopInv.publish (h : LoopInv rt s) (hsame : SameLoop s s') {f : SnapshotFile}
    (hf : s'.snapshot = some f) (hnew : ∀ g, s.snapshot = some g → g.mtime < f.mtime) :
    LoopInv rt s' := by
  obtain ⟨hloop, hmtime, halert, hjson⟩ := hsame
  refine ⟨?_, ?_, ?_, ?_, ?_⟩
  · intro mtime hpc
    obtain ⟨g, hg, hle⟩ := h.reading mtime (hloop ▸ hpc)
    exact ⟨f, hf, hle.trans (hnew g hg).le⟩
  · intro mtime hlast
    obtain ⟨g, hg, hle⟩ := h.seen mtime (hmtime ▸ hlast)
    exact ⟨f, hf, hle.trans (hnew g hg).le⟩
  · intro f' _ hf' hlast
    obtain rfl := Option.some.inj (hf.symm.trans hf')
    obtain ⟨g, hg, hle⟩ := h.seen f.mtime (hmtime ▸ hlast)
    exact absurd hle (Nat.not_le_of_gt (hnew g hg))
  · rw [hloop, hjson]
    exact h.writing
  · rw [hloop, halert, hjson]
    exact h.written

/-- The writer writes nothing of the loop's. -/
theorem writerStep_sameLoop (hstep : s.writerStep rt e = some s') :
    SameLoop s s' ∧ (s'.snapshot = s.snapshot ∨
      e = .rename true ∧ ∃ f, s.tmp = some f ∧ s'.snapshot = some f) := by
  cases e <;> simp only [Pipeline.writerStep, reduceCtorEq] at hstep
  case openTmp ok =>
    split at hstep
    · split at hstep <;> cases hstep <;> exact ⟨⟨rfl, rfl, rfl, rfl⟩, .inl rfl⟩
    · cases hstep
  case rename ok =>
    split at hstep
    · split at hstep <;> cases hstep
      · next f hf => exact ⟨⟨rfl, rfl, rfl, rfl⟩, .inr ⟨rfl, f, hf, rfl⟩⟩
      · exact ⟨⟨rfl, rfl, rfl, rfl⟩, .inl rfl⟩
    · cases hstep
  all_goals
    split at hstep <;> cases hstep
    exact ⟨⟨rfl, rfl, rfl, rfl⟩, .inl rfl⟩

/-- Nor does the advisor. -/
theorem advisorStep_sameLoop (hstep : s.advisorStep rt fm path e = some s') : SameLoop s s' := by
  cases e <;> simp only [Pipeline.advisorStep, reduceCtorEq] at hstep
  case load n =>
    split at hstep <;> cases hstep
    exact ⟨rfl, rfl, rfl, rfl⟩
  all_goals
    split at hstep
    · split at hstep <;> cases hstep <;> exact ⟨rfl, rfl, rfl, rfl⟩
    · cases hstep

/-- Of the writer's steps only the rename matters: the published snapshot is then a new one. -/
theorem LoopInv.writer (h : LoopInv rt s) (htimes : DistinctTimes s e)
    (hstep : s.writerStep rt e = some s') : LoopInv rt s' := by
  obtain ⟨hsame, hsnapshot | ⟨rfl, f, hf, hsnapshot⟩⟩ := writerStep_sameLoop hstep
  · exact h.frame hsame hsnapshot
  · refine h.publish hsame hsnapshot fun g hg => ?_
    simp only [DistinctTimes, hf, hg] at htimes
    exact htimes

/-- The loop remembers the time it has seen, and the alert it has written, in this order. -/
theorem LoopInv.loop (h : LoopInv rt s) (hstep : s.loopStep rt e = some s') : LoopInv rt s' := by
  cases e <;> simp only [Pipeline.loopStep, reduceCtorEq] at hstep
  case stat =>
    split at hstep
    · next hpc =>
        split at hstep
        · cases hstep
          exact h
        · next f hf =>
            split at hstep <;> cases hstep
            · exact h
            · refine ⟨?_, h.seen, ?_, ?_, ?_⟩
              · intro mtime hreading
                cases hreading
                exact ⟨f, hf, le_rfl⟩
              · intro g _ hg hlast
                have hinferred := h.inferred g (by rw [hpc]; simp) hg hlast
                rw [Pipeline.latest, hpc] at hinferred
                exact hinferred
              · intro alert rest hwriting
                cases hwriting
              · intro alert _ _ hlast
                exact h.written alert (by rw [hpc]; simp) (by rw [hpc]; simp) hlast
    · cases hstep
  case read ok =>
    split at hstep
    · next mtime hpc =>
        obtain ⟨f, hf, hle⟩ := h.reading mtime hpc
        have hwritten := fun alert => h.written alert (by rw [hpc]; simp) (by rw [hpc]; simp)
        split at hstep
        · cases hstep
          refine ⟨?_, h.seen, ?_, ?_, ?_⟩
          · intro mtime hreading
            cases hreading
          · intro g _ hg hlast
            have hinferred := h.inferred g (by rw [hpc]; simp) hg hlast
            rw [Pipeline.latest, hpc] at hinferred
            exact hinferred
          · intro alert rest hwriting
            cases hwriting
          · intro alert _ _ hlast
            exact hwritten alert hlast
        · next v hv =>
            have hloads : rt.loads f.content = some v := by
              split at hv
              · rw [hf] at hv
                exact hv
              · cases hv
            split at hstep
            · cases hstep
              refine ⟨?_, h.seen, ?_, ?_, ?_⟩
              · intro mtime hreading
                cases hreading
              · intro g hne
                exact absurd rfl hne
              · intro alert rest hwriting
                cases hwriting
              · intro alert hne
                exact absurd rfl hne
            · next alert hinfer =>
                cases hstep
                refine ⟨?_, ?_, ?_, ?_, ?_⟩
                · intro x hreading
                  dsimp only at hreading
                  split at hreading <;> cases hreading
                · intro x hlast
                  cases hlast
                  exact ⟨f, hf, hle⟩
                · -- a text at least as late as the time that is noted
                  intro g _ hg hlast
                  obtain rfl := Option.some.inj (hf.symm.trans hg)
                  refine ⟨v, alert, hloads, hinfer, ?_⟩
                  simp only [Pipeline.latest]
                  split
                  · next hsame => exact hsame
                  · rfl
                · intro x rest hwriting
                  dsimp only at hwriting
                  split at hwriting <;> cases hwriting
                · intro x _ _ hlast
                  exact hwritten x hlast
    · cases hstep
  case openAlert ok =>
    split at hstep
    · next alert hpc =>
        split at hstep <;> cases hstep
        · refine ⟨?_, h.seen, ?_, ?_, ?_⟩
          · intro mtime hreading
            cases hreading
          · intro g _ hg hlast
            have hinferred := h.inferred g (by rw [hpc]; simp) hg hlast
            rw [Pipeline.latest, hpc] at hinferred
            exact hinferred
          · intro x rest hwriting
            cases hwriting
            exact ⟨[], rfl, rfl⟩
          · intro x _ hne
            exact absurd rfl (hne alert _)
        · refine ⟨?_, h.seen, ?_, ?_, ?_⟩
          · intro mtime hreading
            cases hreading
          · intro g hne
            exact absurd rfl hne
          · intro x rest hwriting
            cases hwriting
          · intro x hne
            exact absurd rfl hne
    · cases hstep
  case writeAlert n =>
    split at hstep
    · next alert rest text hpc htext =>
        cases hstep
        refine ⟨?_, h.seen, ?_, ?_, ?_⟩
        · intro mtime hreading
          cases hreading
        · intro g _ hg hlast
          have hinferred := h.inferred g (by rw [hpc]; simp) hg hlast
          rw [Pipeline.latest, hpc] at hinferred
          exact hinferred
        · intro x rest' hwriting
          cases hwriting
          obtain ⟨text', htext', hall⟩ := h.writing alert rest hpc
          obtain rfl := Option.some.inj (htext.symm.trans htext')
          refine ⟨_, rfl, ?_⟩
          rw [List.append_assoc, List.take_append_drop, hall]
        · intro x _ hne
          exact absurd rfl (hne alert _)
    · cases hstep
  case closeAlert =>
    split at hstep
    · next alert hpc =>
        cases hstep
        refine ⟨?_, h.seen, ?_, ?_, ?_⟩
        · intro mtime hreading
          cases hreading
        · intro g _ hg hlast
          have hinferred := h.inferred g (by rw [hpc]; simp) hg hlast
          rw [Pipeline.latest, hpc] at hinferred
          exact hinferred
        · intro x rest hwriting
          cases hwriting
        · intro x _ _ hlast
          cases hlast
          obtain ⟨text, htext, hall⟩ := h.writing alert [] hpc
          rw [List.append_nil] at hall
          rw [← hall]
          exact htext
    · cases hstep
  case endLoop =>
    cases hstep
    refine ⟨?_, h.seen, ?_, ?_, ?_⟩
    · intro mtime hreading
      cases hreading
    · intro g hne
      exact absurd rfl hne
    · intro x rest hwriting
      cases hwriting
    · intro x hne
      exact absurd rfl hne
  case startLoop =>
    split at hstep <;> cases hstep
    refine ⟨?_, ?_, ?_, ?_, ?_⟩
    · intro mtime hreading
      cases hreading
    · intro mtime hlast
      cases hlast
    · intro g _ _ hlast
      cases hlast
    · intro x rest hwriting
      cases hwriting
    · intro x _ _ hlast
      cases hlast

section Runs

variable {balancer : GovernedBalancer F} {affinityMatrix : Bool}

/-- In every state of a run in which modification times are distinct. -/
theorem loopInv_reach
    (hs : (pipeline rt fm path balancer affinityMatrix).Reach DistinctTimes s) : LoopInv rt s := by
  refine hs.invariant (I := LoopInv rt) ⟨?_, ?_, ?_, ?_, ?_⟩ ?_
  · intro mtime hpc
    cases hpc
  · intro mtime hlast
    cases hlast
  · intro f _ hf
    cases hf
  · intro alert rest hpc
    cases hpc
  · intro alert _ _ hlast
    cases hlast
  · intro s s' e _ h htimes hstep
    rcases pipeline_step hstep with hstep | hstep | hstep | ⟨now, rfl⟩ | rfl
    · exact h.writer htimes hstep
    · exact h.loop hstep
    · exact h.frame (advisorStep_sameLoop hstep) (advisorStep_sameSnapshots hstep).snapshot
    · exact h.frame ⟨rfl, rfl, rfl, rfl⟩ rfl
    · exact h.frame ⟨rfl, rfl, rfl, rfl⟩ rfl

/-- A file with nothing but a known alert is read as that alert. -/
theorem evaluate_alertText (hrt : rt.Documented) {alert : String}
    (halert : NNAdvisor.isKnownAlert alert = true) (supervisor : FeatureSupervisor M F) :
    NNAdvisor.evaluate fm path supervisor (Pipeline.loaded rt (alertText alert)) =
      supervisor.applyChanges fm alert := by
  have hread : NNAdvisor.readAlert path (Pipeline.loaded rt (alertText alert)) = .ok alert := by
    refine NNAdvisor.readAlert_eq_ok.mpr
      ⟨.object [("active_alert", .string alert)], _, ?_, rfl, rfl, halert⟩
    rw [Pipeline.loaded, hrt.parse_alert alert halert]
  rw [NNAdvisor.evaluate, hread]

/-- **No snapshot is missed.**  Where the loop takes the published snapshot for one that it has
seen, `alert.json` is complete and names the alert that the model infers from that very snapshot,
and the advisor's next uninterrupted reading requests it of the supervisor. -/
theorem no_change_up_to_date (hrt : rt.Documented)
    (hs : (pipeline rt fm path balancer affinityMatrix).Reach DistinctTimes s)
    (hsleeping : s.loop = .sleeping) {f : SnapshotFile} (hf : s.snapshot = some f)
    (hseen : s.last_mtime = some f.mtime) :
    ∃ snap ∈ s.captured, f.content = snap.formatJson rt.json false ∧
      ∃ v alert, rt.loads f.content = some v ∧ rt.infer_from_snapshot v = some alert ∧
        s.alertJson = some (alertText alert) ∧
        NNAdvisor.evaluate fm path s.supervisor (Pipeline.loaded rt (alertText alert)) =
          s.supervisor.applyChanges fm alert := by
  obtain ⟨hw, -⟩ := pipelineInv_reach hrt (hs.mono fun _ _ _ => trivial)
  have h := loopInv_reach hs
  obtain ⟨v, alert, hloads, hinfer, hlatest⟩ := h.inferred f (by rw [hsleeping]; simp) hf hseen
  obtain ⟨snap, hsnap, hcontent⟩ := hw.snapshot f hf
  have hwhole := hrt.loads_begun snap f.content hcontent (by rw [hloads]; rfl)
  have hlast : s.last_alert = some alert := by
    rw [Pipeline.latest, hsleeping] at hlatest
    exact hlatest
  have halert := hrt.labels v alert hinfer
  refine ⟨snap, hsnap, hwhole, v, alert, hloads, hinfer, ?_, evaluate_alertText hrt halert _⟩
  rw [← hrt.dump_eq alert halert]
  exact h.written alert (by rw [hsleeping]; simp) (by rw [hsleeping]; simp) hlast

/-- A second snapshot is published over the first, and inferred from in its turn. -/
theorem no_change_up_to_date_twice :
    charsRuntime.Documented ∧
      ∃ (s : Pipeline FeatureGraph Rat) (f : SnapshotFile),
        (pipeline charsRuntime FeatureGraph.manager "alert.json" emptyBalancer false).Reach
          DistinctTimes s ∧ s.loop = .sleeping ∧ s.snapshot = some f ∧
        s.last_mtime = some f.mtime ∧ s.captured.length = 2 ∧
        ∃ snap ∈ s.captured, f.content = snap.formatJson charsRuntime.json false ∧
          ∃ v alert, charsRuntime.loads f.content = some v ∧
            charsRuntime.infer_from_snapshot v = some alert ∧
            s.alertJson = some (alertText alert) ∧
            NNAdvisor.evaluate FeatureGraph.manager "alert.json" s.supervisor
                (Pipeline.loaded charsRuntime (alertText alert)) =
              s.supervisor.applyChanges FeatureGraph.manager alert := by
  obtain ⟨s, hs, hend⟩ :=
    (pipeline charsRuntime FeatureGraph.manager "alert.json" emptyBalancer false).exists_reach
      DistinctTimes
      (alertScript ++ [.capture {}, .tick, .openTmp true, .writeTmp 1000, .closeTmp, .rename true,
        .stat, .read true, .openAlert true, .writeAlert 100, .closeAlert])
      (fun s => (s.loop matches .sleeping) && s.snapshot.any fun f =>
        s.last_mtime == some f.mtime && s.captured.length == 2)
      (by decide +kernel)
  simp only [Bool.and_eq_true, Option.any_eq_true, beq_iff_eq] at hend
  obtain ⟨hloop, f, hf, hseen, htwo⟩ := hend
  have hsleeping : s.loop = .sleeping := by
    split at hloop
    · next h => exact h
    · cases hloop
  exact ⟨charsRuntime_documented, s, f, hs, hsleeping, hf, hseen, htwo,
    no_change_up_to_date charsRuntime_documented hs hsleeping hf hseen⟩

end Runs

end FatpBalancer
