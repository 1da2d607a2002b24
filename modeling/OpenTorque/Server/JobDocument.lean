import OpenTorque.Core.LastWins
import OpenTorque.Server.QueueDocument
import OpenTorque.Server.Recovery

/-! What survives of a job in its document. The writer and the reader keep lists of keys of
their own, a resource request is stored under its name after a prefix, and a value is
written as it is: a line break in it starts a line that the reader takes for another field. -/
namespace OpenTorque.Pbs
open Text (OneLine trimRight)

/-- What a line tells of the field with one key. -/
def Line.tells (key : String) (read : String → Option V) (line : Line) : Option V :=
  if line.1 = key then read line.2 else none

theorem oneLine_of_mem_documentLines {line : Line} (member : line ∈ documentLines doc) :
    OneLine line.1 := by
  obtain ⟨part, listed, found⟩ := List.mem_filterMap.mp member
  have whole : OneLine part := Text.not_mem_of_mem_split listed
  exact (OneLine.cutKey whole.trimSpace found).1

namespace Job

/-- The text fields that the reader knows, with their keys. -/
def storedTexts : List (String × (Job → String)) :=
  [("queue", (·.queue)), ("owner", (·.owner)), ("name", (·.text .name)), ("euser", (·.text .euser)),
    ("egroup", (·.text .egroup)), ("exec_host", (·.execHost)), ("provision_vm", (·.provisionVM)),
    ("provision_node", (·.provisionNode))]

/-- The output paths, which the writer alone knows. -/
def outputPaths : List JobText := [.stdoutPath, .stderrPath]

def storedNumbers : List (String × (Job → Int)) :=
  [("substate", (·.substate)), ("exec_port", (·.execPort)), ("session", (·.sessionID)),
    ("exit_status", (·.exitStatus)), ("priority", (·.priority)), ("node_count", (·.nodeCount)),
    ("task_count", (·.taskCount))]

def storedTimes : List (String × (Job → Time)) :=
  [("comp_time", (·.compTime)), ("start_time", (·.startTime)), ("qtime", (·.queueTime)),
    ("create_time", (·.createTime))]

/-- Every field that is written has come back, the times to the second. -/
structure Restored (j k : Job) : Prop where
  state : k.state = j.state
  texts : ∀ f ∈ storedTexts, f.2 k = f.2 j
  paths : ∀ f ∈ outputPaths, k.text f = j.text f
  numbers : ∀ f ∈ storedNumbers, f.2 k = f.2 j
  times : ∀ f ∈ storedTimes, f.2 k / Time.second = f.2 j / Time.second
  requests : ∀ name, k.resourceReq.lookup name = j.resourceReq.lookup name

/-- The numbers and times are values of `int` and `time.Time`. -/
@[mk_iff]
structure Sized (j : Job) : Prop where
  state : minInt ≤ j.state.code ∧ j.state.code ≤ maxInt
  numbers : ∀ f ∈ storedNumbers, minInt ≤ f.2 j ∧ f.2 j ≤ maxInt
  times : ∀ f ∈ storedTimes, minInt ≤ f.2 j / Time.second ∧ f.2 j / Time.second ≤ maxInt

/-- No line break and no white space around it. -/
def Clean (v : String) : Prop := OneLine v ∧ Text.trimSpace v = v

instance (v : String) : Decidable (Clean v) := inferInstanceAs (Decidable (_ ∧ _))

/-- The values are clean, and no resource name has an equals sign. -/
@[mk_iff]
structure Writable (j : Job) : Prop where
  texts : ∀ f ∈ storedTexts, Clean (f.2 j)
  paths : ∀ f ∈ outputPaths, Clean (j.text f)
  values : ∀ name v, j.resourceReq.lookup name = some v → Clean v
  names : ∀ name ∈ j.resourceReq, '=' ∉ name.toList

instance (j : Job) : Decidable j.Sized := decidable_of_iff' _ (sized_iff j)

instance (j : Job) : Decidable j.Writable := decidable_of_iff' _ (writable_iff j)

section Reader
variable (j : Job) (line : Line)

theorem readLine_told_text : ∀ f ∈ storedTexts,
    f.2 (j.readLine line) = (line.tells f.1 some).getD (f.2 j) := by
  unfold readLine
  split
  case h_21 => split <;> simp_all [storedTexts, Line.tells]
  all_goals simp [storedTexts, Line.tells, setText, Function.update]

theorem readLine_told_number : ∀ f ∈ storedNumbers,
    f.2 (j.readLine line) = (line.tells f.1 scanInt).getD (f.2 j) := by
  unfold readLine
  split
  case h_21 => split <;> simp_all [storedNumbers, Line.tells]
  all_goals simp [storedNumbers, Line.tells, setText, scanInto]

theorem readLine_told_time : ∀ f ∈ storedTimes,
    f.2 (j.readLine line) =
      (line.tells f.1 fun v => (parseInt v).map Time.ofUnix).getD (f.2 j) := by
  unfold readLine
  split
  case h_21 => split <;> simp_all [storedTimes, Line.tells]
  all_goals simp [storedTimes, Line.tells, setText, readTime]

theorem readLine_told_state : (j.readLine line).state =
    (line.tells "state" fun v => (scanInt v).map JobState.ofCode).getD j.state := by
  unfold readLine
  split
  case h_21 => split <;> simp_all [Line.tells]
  all_goals simp [Line.tells, scanState]

theorem readLine_told_request (name : String) : (j.readLine line).resourceReq.lookup name =
    (line.tells ("req." ++ name) fun v => some (some v)).getD (j.resourceReq.lookup name) := by
  have apart : ∀ key : String, "req.".toList.isPrefixOf key.toList = false → ¬ key = "req." ++ name :=
    fun key other same => Text.append_ne other name same.symm
  unfold readLine
  split
  case h_21 key v _ _ _ _ _ _ _ _ _ _ _ _ _ _ _ _ _ _ _ _ =>
    split
    case h_1 resc found =>
      rw [Text.afterPrefix_eq_some found, Assoc.lookup_insert_ite, Line.tells]
      simp only [String.append_right_inj, eq_comm (a := name)]
      split <;> rfl
    case h_2 missing =>
      have other : ¬ key = "req." ++ name := by
        rintro rfl
        rw [Text.afterPrefix_append] at missing
        cases missing
      simp [Line.tells, other]
  all_goals
    rw [Line.tells, if_neg (apart _ (by dsimp only; decide))]
    rfl

theorem readLine_path (f : JobText) (path : f ∈ outputPaths) : (j.readLine line).text f = j.text f := by
  simp only [outputPaths, List.mem_cons, List.not_mem_nil, or_false] at path
  unfold readLine
  split
  case h_21 => split <;> rfl
  all_goals rcases path with rfl | rfl <;> simp [setText]

end Reader
section Document
variable {j : Job}

theorem deserialize_field (field : Job → V) {told : Line → Option V}
    (sets : ∀ (x : Job) line, field (x.readLine line) = (told line).getD (field x))
    (text server : String) (now : Time) : field (deserialize text server now) =
      (lastOf told (documentLines text)).getD (field (newJob "" server now)) :=
  foldl_lastOf sets (documentLines text) _

theorem lastOf_tells_of_keys {lines : List Line} (other : ∀ line ∈ lines, line.1 ≠ key)
    (read : String → Option V) : lastOf (Line.tells key read) lines = none :=
  lastOf_eq_none.mpr fun line member => if_neg (other line member)

theorem lastOf_requestLines (other : "req.".toList.isPrefixOf key.toList = false)
    (read : String → Option V) : lastOf (Line.tells key read) j.requestLines = none := by
  refine lastOf_tells_of_keys (fun line member => ?_) read
  obtain ⟨name, -, rfl⟩ := List.mem_map.mp member
  exact Text.append_ne other name

theorem lastOf_timeLine (key own : String) (t : Time) (read : String → Option V) :
    lastOf (Line.tells key read) (timeLine own t) =
      if own = key ∧ Time.isZero t = false then read (itoa (Time.unix t)) else none := by
  unfold timeLine
  by_cases unset : Time.isZero t = true <;> by_cases same : own = key <;>
    simp [unset, same, lastOf_cons, Line.tells]

theorem lastOf_textLine (key own value : String) (read : String → Option V) :
    lastOf (Line.tells key read) (textLine own value) =
      if own = key ∧ value ≠ "" then read value else none := by
  unfold textLine
  by_cases unset : value = "" <;> by_cases same : own = key <;>
    simp [unset, same, lastOf_cons, Line.tells]

/-- The lines of a job that say something of a field other than a request. -/
theorem lastOf_lines (other : "req.".toList.isPrefixOf key.toList = false)
    (read : String → Option V) : lastOf (Line.tells key read) j.lines =
      ((lastOf (Line.tells key read) j.provisionLines).or
        (lastOf (Line.tells key read) j.timeLines)).or
          (lastOf (Line.tells key read) (("state", itoa j.state.code) :: j.fieldLines)) := by
  rw [lines, ← List.cons_append, ← List.cons_append, ← List.cons_append, lastOf_append,
    lastOf_append, lastOf_append, lastOf_requestLines other, Option.none_or, Option.or_assoc]

theorem lines_told_text : ∀ f ∈ storedTexts,
    (lastOf (Line.tells f.1 some) j.lines).getD (f.2 (newJob "" server now)) = f.2 j := by
  have given (value : String) :
      (if value = "" then none else some value : Option String).getD "" = value := by
    split <;> simp_all
  simp only [storedTexts, List.mem_cons, List.not_mem_nil, or_false, forall_eq_or_imp, forall_eq]
  refine ⟨?_, ?_, ?_, ?_, ?_, ?_, ?_, ?_⟩
  all_goals
    rw [lastOf_lines (by decide)]
    simp [provisionLines, timeLines, fieldLines, lastOf_append, lastOf_cons, lastOf_timeLine,
      lastOf_textLine, Line.tells, newJob, given]

theorem lines_told_number (sized : j.Sized) : ∀ f ∈ storedNumbers,
    lastOf (Line.tells f.1 scanInt) j.lines = some (f.2 j) := by
  have read : ∀ f ∈ storedNumbers, scanInt (itoa (f.2 j)) = some (f.2 j) :=
    fun f member => scanInt_itoa _ (sized.numbers f member).1 (sized.numbers f member).2
  simp only [storedNumbers, List.mem_cons, List.not_mem_nil, or_false, forall_eq_or_imp,
    forall_eq] at read ⊢
  refine ⟨?_, ?_, ?_, ?_, ?_, ?_, ?_⟩
  all_goals
    rw [lastOf_lines (by decide)]
    simp [provisionLines, timeLines, fieldLines, lastOf_append, lastOf_cons, lastOf_timeLine,
      lastOf_textLine, Line.tells, read]

theorem lines_told_state (sized : j.Sized) :
    lastOf (Line.tells "state" fun v => (scanInt v).map JobState.ofCode) j.lines =
      some j.state := by
  rw [lastOf_lines (by decide)]
  simp [provisionLines, timeLines, fieldLines, lastOf_append, lastOf_cons, lastOf_timeLine,
    lastOf_textLine, Line.tells, scanInt_itoa _ sized.state.1 sized.state.2, JobState.ofCode_code]

theorem lines_told_time : ∀ f ∈ storedTimes,
    lastOf (Line.tells f.1 fun v => (parseInt v).map Time.ofUnix) j.lines =
      if Time.isZero (f.2 j) = false then some (Time.ofUnix (Time.unix (f.2 j))) else none := by
  have read (t : Time) : parseInt (itoa (Time.unix t)) = some (Time.unix t) :=
    parseInt_itoa _ (wrap64_fits _).1 (wrap64_fits _).2
  simp only [storedTimes, List.mem_cons, List.not_mem_nil, or_false, forall_eq_or_imp, forall_eq]
  refine ⟨?_, ?_, ?_, ?_⟩
  all_goals
    rw [lastOf_lines (by decide)]
    simp [provisionLines, timeLines, fieldLines, lastOf_append, lastOf_cons, lastOf_timeLine,
      lastOf_textLine, Line.tells, read]

theorem lastOf_requestLines_self (name : String) (read : String → Option V) :
    lastOf (Line.tells ("req." ++ name) read) j.requestLines =
      (j.resourceReq.lookup name).bind read := by
  have same : ∀ line ∈ j.requestLines, ∀ v ∈ line.tells ("req." ++ name) read,
      (j.resourceReq.lookup name).bind read = some v := by
    intro line member v told
    obtain ⟨k, listed, rfl⟩ := List.mem_map.mp member
    obtain ⟨own, value⟩ := Option.ite_none_right_eq_some.mp told
    obtain rfl : k = name := by simpa using own
    obtain ⟨w, found⟩ := Assoc.exists_lookup
      (AList.mem_keys.mpr (by simpa using listed) : k ∈ j.resourceReq)
    simpa [found] using value
  cases expected : (j.resourceReq.lookup name).bind read with
  | none =>
    refine lastOf_eq_none.mpr fun line member => Option.eq_none_iff_forall_not_mem.mpr ?_
    intro v told
    simp [same line member v told] at expected
  | some v =>
    obtain ⟨value, found, value_read⟩ := Option.bind_eq_some_iff.mp expected
    refine lastOf_eq_some ⟨("req." ++ name, value), ?_, by simpa [Line.tells] using value_read⟩ ?_
    · refine List.mem_map.mpr ⟨name, ?_, by rw [found]; rfl⟩
      simpa using AList.mem_keys.mp (Assoc.mem_of_lookup found)
    · intro line member w told
      simpa [expected] using (same line member w told).symm

theorem lines_told_request (name : String) :
    lastOf (Line.tells ("req." ++ name) fun v => some (some v)) j.lines =
      (j.resourceReq.lookup name).map some := by
  have marks : ∀ key ∈ "state" :: plainKeys, "req.".toList.isPrefixOf key.toList = false := by
    decide
  have other : ∀ key ∈ "state" :: plainKeys, key ≠ "req." ++ name :=
    fun key member same => Text.append_ne (marks key member) name same.symm
  have fixed : ∀ line ∈ ("state", itoa j.state.code) :: (j.fieldLines ++ j.timeLines),
      line.1 ≠ "req." ++ name := by
    intro line member
    rcases List.mem_cons.mp member with rfl | member
    · exact other _ (by simp)
    · exact other _ (List.mem_cons_of_mem _
        (j.key_of_mem_plainLines (List.mem_append_left _ member)))
  have provision : ∀ line ∈ j.provisionLines, line.1 ≠ "req." ++ name := fun line member =>
    other _ (List.mem_cons_of_mem _ (j.key_of_mem_plainLines (List.mem_append_right _ member)))
  rw [lines, ← List.cons_append, ← List.cons_append, lastOf_append, lastOf_append,
    lastOf_tells_of_keys fixed, lastOf_tells_of_keys provision, lastOf_requestLines_self,
    Option.none_or, Option.or_none]
  cases j.resourceReq.lookup name <;> rfl

theorem value_of_mem_timeLines {line : Line} (member : line ∈ j.timeLines) :
    ∃ n, line.2 = itoa n := by
  have times {key : String} {t : Time} (member : line ∈ timeLine key t) : ∃ n, line.2 = itoa n := by
    unfold timeLine at member
    split at member <;> simp_all
  simp only [timeLines, List.mem_append] at member
  rcases member with ((comp | start) | qtime) | create
  · exact times comp
  · exact times start
  · exact times qtime
  · exact times create

theorem mem_lines {line : Line} (member : line ∈ j.lines) :
    line.1 ∈ "state" :: plainKeys ∧ ((∃ n, line.2 = itoa n) ∨
      (∃ f ∈ storedTexts, line.2 = f.2 j) ∨ ∃ f ∈ outputPaths, line.2 = j.text f) ∨
    ∃ name v, j.resourceReq.lookup name = some v ∧ line = ("req." ++ name, v) := by
  have texts {key value : String} (member : line ∈ textLine key value) : line.2 = value := by
    unfold textLine at member
    split at member <;> simp_all
  simp only [lines, List.mem_cons, List.mem_append] at member
  rcases member with rfl | ((fixed | time) | request) | provision
  · exact .inl ⟨by simp, .inl ⟨_, rfl⟩⟩
  · refine .inl ⟨List.mem_cons_of_mem _ (j.key_of_mem_plainLines (by simp [fixed])), ?_⟩
    simp only [fieldLines, List.mem_cons, List.not_mem_nil, or_false] at fixed
    rcases fixed with rfl | rfl | rfl | rfl | rfl | rfl | rfl | rfl | rfl | rfl | rfl | rfl | rfl |
      rfl | rfl <;> simp [storedTexts, outputPaths]
  · exact .inl ⟨List.mem_cons_of_mem _ (j.key_of_mem_plainLines (by simp [time])),
      .inl (value_of_mem_timeLines time)⟩
  · obtain ⟨name, listed, rfl⟩ := List.mem_map.mp request
    obtain ⟨v, found⟩ := Assoc.exists_lookup
      (AList.mem_keys.mpr (by simpa using listed) : name ∈ j.resourceReq)
    exact .inr ⟨name, v, found, by rw [found]; rfl⟩
  · refine .inl ⟨List.mem_cons_of_mem _ (j.key_of_mem_plainLines (by simp [provision])), .inr (.inl ?_)⟩
    rcases List.mem_append.mp provision with vm | node
    · exact ⟨("provision_vm", (·.provisionVM)), by simp [storedTexts], texts vm⟩
    · exact ⟨("provision_node", (·.provisionNode)), by simp [storedTexts], texts node⟩

theorem clean_of_mem_lines (writable : j.Writable) {line : Line} (member : line ∈ j.lines) :
    OneLine line.2 ∧ trimRight line.2 = line.2 := by
  have clean {v : String} (clean : Clean v) : OneLine v ∧ trimRight v = v :=
    ⟨clean.1, Text.trimRight_of_trimSpace clean.2⟩
  rcases mem_lines member with ⟨-, ⟨n, value⟩ | ⟨f, listed, value⟩ | ⟨f, listed, value⟩⟩ |
    ⟨name, v, found, rfl⟩
  · rw [value]
    exact ⟨oneLine_itoa n, trimRight_itoa n⟩
  · exact value ▸ clean (writable.texts f listed)
  · exact value ▸ clean (writable.paths f listed)
  · exact clean (writable.values name v found)

/-- The lines of a clean job are read back as they were written. -/
theorem documentLines_serialize (writable : j.Writable)
    (named : ∀ name ∈ j.resourceReq, OneLine name) : documentLines j.serialize = j.lines := by
  have fixed : ∀ key ∈ "state" :: plainKeys, OneLine key ∧ key ≠ "" ∧
      (∀ c ∈ key.toList.head?, Text.isSpace c = false) ∧ '=' ∉ key.toList := by decide
  have keys : ∀ line ∈ j.lines, OneLine line.1 ∧ line.1 ≠ "" ∧
      (∀ c ∈ line.1.toList.head?, Text.isSpace c = false) ∧ '=' ∉ line.1.toList := by
    intro line member
    rcases mem_lines member with ⟨plain, -⟩ | ⟨name, v, found, rfl⟩
    · exact fixed _ plain
    · have present := Assoc.mem_of_lookup found
      exact ⟨OneLine.append (by decide) (named name present), by simp, by simp [Text.isSpace],
        by simpa using writable.names name present⟩
  have read : ∀ line ∈ j.lines, Line.read line = some line := by
    intro line member
    rw [Line.read_eq (keys line member).2, (clean_of_mem_lines writable member).2]
  rw [serialize, documentLines_document fun line member =>
    ⟨(keys line member).1, (clean_of_mem_lines writable member).1⟩, List.filterMap_congr read,
    List.filterMap_some]

theorem readLines_path (f : JobText) (path : f ∈ outputPaths) (text server : String) (now : Time) :
    (deserialize text server now).text f = "" := by
  have start : (newJob "" server now).text f = "" := by
    rcases List.mem_pair.mp path with rfl | rfl <;> rfl
  exact List.foldlRecOn (motive := fun k : Job => k.text f = "") _ _ start
    fun k blank line _ => (k.readLine_path line f path).trans blank

theorem ofUnix_unix (low : minInt ≤ t / Time.second) (high : t / Time.second ≤ maxInt) :
    Time.ofUnix (Time.unix t) / Time.second = t / Time.second := by
  have seconds : wrap64 (Time.unix t + Time.epoch) = t / Time.second := by
    rw [Time.unix, wrap64, wrap64, Int.bmod_add_bmod, Int.sub_add_cancel]
    exact wrap64_of_fits low high
  rw [Time.ofUnix, seconds, Int.mul_ediv_cancel _ (by decide)]

end Document

/-- A clean job comes back whole exactly if it has no output paths, has a creation time and
names no resource over two lines. -/
theorem deserialize_restores_iff (j : Job) (writable : j.Writable) (sized : j.Sized) :
    (∀ server now, j.Restored (deserialize j.serialize server now)) ↔
      (∀ f ∈ outputPaths, j.text f = "") ∧ j.createTime ≠ 0 ∧
        ∀ name ∈ j.resourceReq, OneLine name := by
  constructor
  · intro restored
    have named : ∀ name ∈ j.resourceReq, OneLine name := by
      intro name present
      obtain ⟨v, found⟩ := Assoc.exists_lookup present
      have kept := (restored "" 0).requests name
      rw [deserialize_field (·.resourceReq.lookup name) fun x line => readLine_told_request x line name, found] at kept
      cases told : lastOf (Line.tells ("req." ++ name) fun v => some (some v))
          (documentLines j.serialize) with
      | none => simp [told, newJob] at kept
      | some w =>
        obtain ⟨line, member, gives⟩ := exists_of_lastOf told
        have own := (Option.ite_none_right_eq_some.mp gives).1
        have whole := oneLine_of_mem_documentLines member
        rw [own] at whole
        exact whole.of_subset fun c member => by simp [member]
    refine ⟨fun f member => ?_, ?_, named⟩
    · rw [← (restored "" 0).paths f member, readLines_path f member]
    · intro unset
      have kept := (restored "" Time.second).times ("create_time", (·.createTime)) (by simp [storedTimes])
      rw [deserialize_field _ fun x line => readLine_told_time x line _ (by simp [storedTimes]),
        documentLines_serialize writable named, lines_told_time _ (by simp [storedTimes])] at kept
      simp [unset, newJob, Time.isZero, Time.second] at kept
  · rintro ⟨pathless, dated, named⟩ server now
    have lines := documentLines_serialize writable named
    refine ⟨?_, fun f member => ?_, fun f member => ?_, fun f member => ?_, fun f member => ?_,
      fun name => ?_⟩
    · rw [deserialize_field _ readLine_told_state, lines, lines_told_state sized, Option.getD_some]
    · rw [deserialize_field _ fun x line => readLine_told_text x line f member, lines,
        lines_told_text f member]
    · rw [readLines_path f member, pathless f member]
    · rw [deserialize_field _ fun x line => readLine_told_number x line f member, lines,
        lines_told_number sized f member, Option.getD_some]
    · rw [deserialize_field _ fun x line => readLine_told_time x line f member, lines,
        lines_told_time f member]
      by_cases unset : Time.isZero (f.2 j) = true
      · have zero : f.2 j = 0 := of_decide_eq_true unset
        have blank : f.2 (newJob "" server now) = 0 := by
          simp only [storedTimes, List.mem_cons, List.not_mem_nil, or_false] at member
          rcases member with rfl | rfl | rfl | rfl
          · rfl
          · rfl
          · rfl
          · exact absurd zero dated
        rw [if_neg (by simp [unset]), Option.getD_none, blank, zero]
      · rw [if_pos (by simpa using unset), Option.getD_some,
          ofUnix_unix (sized.times f member).1 (sized.times f member).2]
    · rw [deserialize_field (·.resourceReq.lookup name) fun x line => readLine_told_request x line name, lines,
        lines_told_request]
      cases j.resourceReq.lookup name <;> rfl

/-- A job that was created when the documents' clock stood at one second. -/
def dated : Job :=
  { createTime := Time.second, queue := "batch", resourceReq := AList.insert "nodes" "2:ppn=4" ∅ }

/-- A job with an output path comes back without it. -/
theorem output_path_lost : (dated.setText .stdoutPath "host:/home/ann/out").Writable ∧
    (dated.setText .stdoutPath "host:/home/ann/out").Sized ∧
    ¬ (dated.setText .stdoutPath "host:/home/ann/out").Restored
      (deserialize (dated.setText .stdoutPath "host:/home/ann/out").serialize "server" 0) := by
  refine ⟨by decide +kernel, by decide +kernel, fun restored => ?_⟩
  have kept := restored.paths .stdoutPath (by decide)
  rw [readLines_path .stdoutPath (by decide)] at kept
  revert kept
  decide

theorem dated_restored : dated.Writable ∧ dated.Sized ∧
    ∀ server now, dated.Restored (deserialize dated.serialize server now) :=
  ⟨by decide +kernel, by decide +kernel,
    (deserialize_restores_iff dated (by decide +kernel) (by decide +kernel)).mpr
      (by decide +kernel)⟩

end Job

/-- The lines a reader finds in what was written as one. -/
def Line.found (line : Line) : List Line := documentLines line.text

theorem documentLines_document_flatMap (lines : List Line) :
    documentLines (document lines) = lines.flatMap Line.found := by
  have text : document lines = String.join ((lines.map Line.text).map (· ++ "\n")) := by
    rw [document, List.map_map]
    rfl
  have blank : [""].filterMap (fun line => Text.cutKey '=' (Text.trimSpace line)) = [] := by decide
  rw [documentLines, text, Text.split_chunks, List.filterMap_append, blank, List.append_nil,
    List.flatMap_map, List.filterMap_flatMap]
  rfl

theorem Line.found_of_whole {line : Line} (whole : line.Whole) : line.found = line.read.toList := by
  have single : Text.split '\n' line.text = [line.text] :=
    Text.split_of_not_mem ((whole.1.append (by decide)).append whole.2)
  rw [Line.found, documentLines, single, Line.read]
  cases found : Text.cutKey '=' (Text.trimSpace line.text) <;> simp [found]

/-- The fields of a job that its submitter must not be able to forge. -/
inductive Protected where
  | state | owner | queue | execHost | exitStatus
  deriving DecidableEq, Repr

namespace Protected

def Value : Protected → Type
  | .state => JobState
  | .exitStatus => Int
  | .owner | .queue | .execHost => String

instance : (p : Protected) → DecidableEq p.Value
  | .state => inferInstanceAs (DecidableEq JobState)
  | .exitStatus => inferInstanceAs (DecidableEq Int)
  | .owner | .queue | .execHost => inferInstanceAs (DecidableEq String)

def value : (p : Protected) → Job → p.Value
  | .state, j => j.state
  | .owner, j => j.owner
  | .queue, j => j.queue
  | .execHost, j => j.execHost
  | .exitStatus, j => j.exitStatus

def key : Protected → String
  | .state => "state" | .owner => "owner" | .queue => "queue" | .execHost => "exec_host"
  | .exitStatus => "exit_status"

def read : (p : Protected) → String → Option p.Value
  | .state, v => (scanInt v).map JobState.ofCode
  | .owner, v => some v
  | .queue, v => some v
  | .execHost, v => some v
  | .exitStatus, v => scanInt v

/-- What a reader learns of the field from lines that were written as these. -/
def last (p : Protected) (lines : List Line) : Option p.Value :=
  lastOf (Line.tells p.key p.read) (lines.flatMap Line.found)

theorem last_append (p : Protected) (l m : List Line) :
    p.last (l ++ m) = (p.last m).or (p.last l) := by
  rw [last, List.flatMap_append, lastOf_append, last, last]

theorem readLine_told (p : Protected) (j : Job) (line : Line) :
    p.value (j.readLine line) = (line.tells p.key p.read).getD (p.value j) := by
  have text := j.readLine_told_text line
  have number := j.readLine_told_number line
  cases p with
  | state => exact j.readLine_told_state line
  | owner => exact text ("owner", (·.owner)) (by simp [Job.storedTexts])
  | queue => exact text ("queue", (·.queue)) (by simp [Job.storedTexts])
  | execHost => exact text ("exec_host", (·.execHost)) (by simp [Job.storedTexts])
  | exitStatus => exact number ("exit_status", (·.exitStatus)) (by simp [Job.storedNumbers])

theorem value_setScript (p : Protected) (j : Job) (script : String) :
    p.value (j.setScript script) = p.value j := by
  cases p <;> rfl

theorem exists_value_boot (j : Job) (st : Store) (id name : String) (start : Env) :
    ∃ k, (Server.boot name (st.saveJob id j.serialize) start).job id = some k ∧
      ∀ p : Protected, p.value k = (p.last j.lines).getD (p.value {}) := by
  obtain ⟨server, script, same⟩ := Server.job_boot name (st.saveJob id j.serialize) start id
  have written : (st.saveJob id j.serialize).jobs.lookup id = some j.serialize :=
    AList.lookup_insert _
  rw [written, Option.map_some] at same
  refine ⟨_, same, fun p => ?_⟩
  have read := Job.deserialize_field p.value p.readLine_told j.serialize server start.now
  have blank : p.value (Job.newJob "" server start.now) = p.value {} := by cases p <;> rfl
  have found : documentLines j.serialize = j.lines.flatMap Line.found :=
    documentLines_document_flatMap j.lines
  rw [blank, found] at read
  exact (p.value_setScript _ script).trans read

end Protected

/-- The texts of a job that its submitter chooses. -/
structure ClientTexts where
  name : String := ""
  egroup : String := ""
  stdoutPath : String := ""
  stderrPath : String := ""
  requests : Assoc String := ∅

namespace Job

def withTexts (j : Job) (t : ClientTexts) : Job where
  __ := (((j.setText .name t.name).setText .egroup t.egroup).setText .stdoutPath
    t.stdoutPath).setText .stderrPath t.stderrPath
  resourceReq := t.requests

def headLines (j : Job) : List Line :=
  [("state", itoa j.state.code), ("substate", itoa j.substate), ("queue", j.queue),
    ("owner", j.owner)]

def figureLines (j : Job) : List Line :=
  [("exec_port", itoa j.execPort), ("session", itoa j.sessionID),
    ("exit_status", itoa j.exitStatus), ("priority", itoa j.priority),
    ("node_count", itoa j.nodeCount), ("task_count", itoa j.taskCount)] ++ j.timeLines

end Job

namespace ClientTexts

def pathLines (t : ClientTexts) : List Line := [("stdout", t.stdoutPath), ("stderr", t.stderrPath)]

def requestLines (t : ClientTexts) : List Line := ({ resourceReq := t.requests } : Job).requestLines

def lateLines (t : ClientTexts) : List Line := t.pathLines ++ t.requestLines

def middleLines (t : ClientTexts) : List Line := ("egroup", t.egroup) :: t.lateLines

def lines (t : ClientTexts) : List Line := ("name", t.name) :: t.middleLines

/-- The texts of two submissions say the same of every protected field whose own line they
follow. -/
structure Matched (t t' : ClientTexts) : Prop where
  all : ∀ p ∈ [Protected.state, .owner, .queue], p.last t.lines = p.last t'.lines
  middle : ∀ p ∈ [Protected.state, .owner, .queue], p.last t.middleLines = p.last t'.middleLines
  late : ∀ p ∈ [Protected.state, .owner, .queue, .execHost], p.last t.lateLines = p.last t'.lateLines
  request : Protected.exitStatus.last t.requestLines = Protected.exitStatus.last t'.requestLines

end ClientTexts

namespace Job
variable {j : Job} {t : ClientTexts}

theorem headLines_eq (j : Job) : j.headLines =
    [("state", itoa j.state.code), ("substate", itoa j.substate), ("queue", j.queue)] ++
      [("owner", j.owner)] := rfl

theorem lines_withTexts : (j.withTexts t).lines = j.headLines ++ [("name", t.name)] ++
    [("euser", j.text .euser)] ++ [("egroup", t.egroup)] ++ [("exec_host", j.execHost)] ++
    t.pathLines ++ j.figureLines ++ t.requestLines ++ j.provisionLines := by
  simp [lines, fieldLines, withTexts, headLines, figureLines, ClientTexts.pathLines,
    ClientTexts.requestLines, requestLines, timeLines, provisionLines, setText]

theorem found_figureLines : j.figureLines.flatMap Line.found = j.figureLines := by
  have labels : ∀ key ∈ plainKeys, OneLine key ∧ key ≠ "" ∧
      (∀ c ∈ key.toList.head?, Text.isSpace c = false) ∧ '=' ∉ key.toList := by decide
  have figures : ∀ line ∈ j.figureLines, line.1 ∈ plainKeys ∧ ∃ n, line.2 = itoa n := by
    intro line member
    rcases List.mem_append.mp member with fixed | time
    · simp only [List.mem_cons, List.not_mem_nil, or_false] at fixed
      rcases fixed with rfl | rfl | rfl | rfl | rfl | rfl <;> exact ⟨by simp [plainKeys], _, rfl⟩
    · exact ⟨j.key_of_mem_plainLines (by simp [time]), value_of_mem_timeLines time⟩
  have single : ∀ line ∈ j.figureLines, Line.found line = [line] := by
    intro line member
    obtain ⟨plain, n, value⟩ := figures line member
    obtain ⟨oneLine, clean⟩ := labels _ plain
    obtain ⟨key, v⟩ := line
    subst value
    rw [Line.found_of_whole ⟨oneLine, oneLine_itoa n⟩, Line.read_eq clean, trimRight_itoa]
    rfl
  rw [List.flatMap_congr single, List.flatMap_singleton']

theorem last_figureLines (other : p ≠ Protected.exitStatus) : p.last j.figureLines = none := by
  rw [Protected.last, found_figureLines, figureLines]
  cases p with
  | exitStatus => exact absurd rfl other
  | _ => simp [timeLines, lastOf_append, lastOf_cons, lastOf_timeLine, Line.tells, Protected.key]

theorem last_figureLines_exitStatus (sized : j.Sized) :
    Protected.exitStatus.last j.figureLines = some (Protected.exitStatus.value j) := by
  have read := scanInt_itoa j.exitStatus
    (sized.numbers ("exit_status", (·.exitStatus)) (by simp [storedNumbers])).1
    (sized.numbers ("exit_status", (·.exitStatus)) (by simp [storedNumbers])).2
  rw [Protected.last, found_figureLines, figureLines]
  simp [timeLines, lastOf_append, lastOf_cons, lastOf_timeLine, Line.tells, Protected.key,
    Protected.read, read]
  exact Option.none_or (o := some j.exitStatus)

/-- What follows the host's own line, for a field that no figure tells. -/
theorem last_withTexts (other : p ≠ Protected.exitStatus) : p.last (j.withTexts t).lines =
    (p.last j.provisionLines).or ((p.last t.lateLines).or
      ((p.last [("exec_host", j.execHost)]).or ((p.last [("egroup", t.egroup)]).or
        ((p.last [("euser", j.text .euser)]).or
          ((p.last [("name", t.name)]).or (p.last j.headLines)))))) := by
  rw [lines_withTexts, ClientTexts.lateLines]
  simp only [Protected.last_append, last_figureLines other, Option.none_or, Option.or_assoc]

theorem last_withTexts_exitStatus (sized : j.Sized) :
    Protected.exitStatus.last (j.withTexts t).lines =
      (Protected.exitStatus.last j.provisionLines).or
        ((Protected.exitStatus.last t.requestLines).or (some (Protected.exitStatus.value j))) := by
  rw [lines_withTexts]
  simp only [Protected.last_append, last_figureLines_exitStatus sized, Option.some_or]

end Job

namespace ClientTexts
variable {t t' : ClientTexts}

theorem last_middleLines (p : Protected) (t : ClientTexts) :
    p.last t.middleLines = (p.last t.lateLines).or (p.last [("egroup", t.egroup)]) := by
  rw [middleLines, ← List.singleton_append, Protected.last_append]

theorem last_lines (p : Protected) (t : ClientTexts) :
    p.last t.lines = (p.last t.middleLines).or (p.last [("name", t.name)]) := by
  rw [lines, ← List.singleton_append, Protected.last_append]

/-- The host's own line tells the host, whatever follows a line break in it. -/
theorem exists_last_execHost (host : String) :
    ∃ v, Protected.execHost.last [("exec_host", host)] = some v := by
  have head : Text.before '\n' (Line.text ("exec_host", host)) =
      Line.text ("exec_host", Text.before '\n' host) := by
    have clean : ∀ c ∈ "exec_host=".toList, decide (c ≠ '\n') = true := by decide
    refine String.toList_injective ?_
    simp only [Line.text, Text.before, String.toList_append, String.toList_ofList]
    exact List.takeWhile_append_of_pos clean
  have first : ("exec_host", trimRight (Text.before '\n' host)) ∈ Line.found ("exec_host", host) := by
    obtain ⟨rest, parts⟩ := Text.split_eq_before_cons '\n' (Line.text ("exec_host", host))
    rw [Line.found, documentLines, parts, head]
    exact List.mem_filterMap.mpr ⟨_, List.mem_cons_self, Line.read_eq (by decide) _⟩
  refine Option.ne_none_iff_exists'.mp fun missing => ?_
  have silent := lastOf_eq_none.mp missing _ (List.mem_flatMap.mpr ⟨_, List.mem_singleton_self _, first⟩)
  simp [Line.tells, Protected.key, Protected.read] at silent

/-- Matched texts leave every protected field as it is. -/
theorem Matched.last_lines (matched : Matched t t') {j : Job} (sized : j.Sized) (p : Protected) :
    p.last (j.withTexts t).lines = p.last (j.withTexts t').lines := by
  have texts (p : Protected) (listed : p ∈ [Protected.state, .owner, .queue]) :
      p.last (j.withTexts t).lines = p.last (j.withTexts t').lines := by
    have other : p ≠ .exitStatus := by rintro rfl; simp at listed
    have late := matched.late p (List.mem_append_left [_] listed)
    have middle := matched.middle p listed
    have all := matched.all p listed
    rw [ClientTexts.last_lines, ClientTexts.last_lines, last_middleLines, last_middleLines] at all
    rw [last_middleLines, last_middleLines] at middle
    rw [Job.last_withTexts other, Job.last_withTexts other,
      or_interleaved _ _ _ late middle all]
  cases p with
  | state => exact texts .state (by simp)
  | owner => exact texts .owner (by simp)
  | queue => exact texts .queue (by simp)
  | execHost =>
    obtain ⟨host, told⟩ := exists_last_execHost j.execHost
    rw [Job.last_withTexts (by decide), Job.last_withTexts (by decide),
      matched.late .execHost (by simp), told, Option.some_or, Option.some_or]
  | exitStatus =>
    rw [Job.last_withTexts_exitStatus sized, Job.last_withTexts_exitStatus sized, matched.request]

section Forgery
variable {p : Protected}

/-- The texts say the same to every job. -/
def Alike (t t' : ClientTexts) : Prop := ∀ j : Job, j.Sized → ∀ p : Protected,
  (p.last (j.withTexts t).lines).getD (p.value {}) = (p.last (j.withTexts t').lines).getD (p.value {})

theorem exists_read_digits (p : Protected) : ∃ v w : p.Value, v ≠ w ∧ p.read "1" = some v ∧
    p.read "2" = some w := by
  cases p with
  | state =>
    have other : JobState.ofCode 1 ≠ JobState.ofCode 2 := by decide
    exact ⟨_, _, other, by decide, by decide⟩
  | exitStatus =>
    have other : (1 : Int) ≠ 2 := by decide
    exact ⟨_, _, other, by decide, by decide⟩
  | owner | queue | execHost =>
    have other : "1" ≠ "2" := by decide
    exact ⟨_, _, other, rfl, rfl⟩

/-- Two jobs that differ in a field show what the texts say of it. -/
theorem Alike.eq_of_jobs (alike : Alike t t') (said : ClientTexts → Option p.Value)
    (job : String → Job) (sized : ∀ v ∈ ["1", "2"], (job v).Sized)
    (told : ∀ v ∈ ["1", "2"], ∀ t, p.last ((job v).withTexts t).lines = (said t).or (p.read v)) :
    said t = said t' := by
  obtain ⟨v, w, other, one, two⟩ := exists_read_digits p
  have first := alike (job "1") (sized "1" (by simp)) p
  have second := alike (job "2") (sized "2" (by simp)) p
  rw [told "1" (by simp), told "1" (by simp), one] at first
  rw [told "2" (by simp), told "2" (by simp), two] at second
  refine eq_of_getD other ?_ ?_
  · simpa [Option.getD_or] using first
  · simpa [Option.getD_or] using second

/-- A text with a line of its own for a field. -/
def forged (p : Protected) (v : String) : String := "\n" ++ p.key ++ "=" ++ v

theorem or_read {v : String} (digit : v ∈ ["1", "2"]) (x : Option p.Value) :
    (p.read v).or x = p.read v := by
  obtain ⟨a, b, -, one, two⟩ := exists_read_digits p
  rcases List.mem_pair.mp digit with rfl | rfl
  · rw [one, Option.some_or]
  · rw [two, Option.some_or]

theorem Alike.late (alike : Alike t t') (listed : p ∈ [Protected.state, .owner, .queue, .execHost]) :
    p.last t.lateLines = p.last t'.lateLines := by
  let job (p : Protected) (v : String) : Job :=
    { execHost := if p = .execHost then v else forged p v }
  have facts : ∀ p ∈ [Protected.state, .owner, .queue, .execHost], ∀ v ∈ ["1", "2"],
      p ≠ .exitStatus ∧ (job p v).Sized ∧ p.last (job p v).provisionLines = none ∧
        p.last [("exec_host", (job p v).execHost)] = p.read v := by decide
  refine alike.eq_of_jobs (fun t => p.last t.lateLines) (job p)
    (fun v digit => (facts p listed v digit).2.1) fun v digit t => ?_
  obtain ⟨other, -, silent, host⟩ := facts p listed v digit
  rw [Job.last_withTexts other, silent, host, Option.none_or, or_read digit]

theorem Alike.middle (alike : Alike t t') (listed : p ∈ [Protected.state, .owner, .queue]) :
    p.last t.middleLines = p.last t'.middleLines := by
  let job (p : Protected) (v : String) : Job := Job.setText {} .euser (forged p v)
  have facts : ∀ p ∈ [Protected.state, .owner, .queue], ∀ v ∈ ["1", "2"],
      p ≠ .exitStatus ∧ (job p v).Sized ∧ p.last (job p v).provisionLines = none ∧
        p.last [("exec_host", (job p v).execHost)] = none ∧
        p.last [("euser", (job p v).text .euser)] = p.read v := by decide
  refine alike.eq_of_jobs (fun t => p.last t.middleLines) (job p)
    (fun v digit => (facts p listed v digit).2.1) fun v digit t => ?_
  obtain ⟨other, -, silent, host, user⟩ := facts p listed v digit
  rw [Job.last_withTexts other, silent, host, user, Option.none_or, Option.none_or, or_read digit,
    last_middleLines, Option.or_assoc]

theorem Alike.all (alike : Alike t t') (listed : p ∈ [Protected.state, .owner, .queue]) :
    p.last t.lines = p.last t'.lines := by
  let job (p : Protected) (v : String) : Job := { owner := forged p v }
  have facts : ∀ p ∈ [Protected.state, .owner, .queue], ∀ v ∈ ["1", "2"],
      p ≠ .exitStatus ∧ (job p v).Sized ∧ p.last (job p v).provisionLines = none ∧
        p.last [("exec_host", (job p v).execHost)] = none ∧
        p.last [("euser", (job p v).text .euser)] = none ∧
        p.last [("owner", (job p v).owner)] = p.read v := by decide
  refine alike.eq_of_jobs (fun t => p.last t.lines) (job p)
    (fun v digit => (facts p listed v digit).2.1) fun v digit t => ?_
  obtain ⟨other, -, silent, host, user, owner⟩ := facts p listed v digit
  have head : p.last (job p v).headLines = p.read v := by
    rw [Job.headLines_eq, Protected.last_append, owner, or_read digit]
  rw [Job.last_withTexts other, silent, host, user, head, Option.none_or, Option.none_or,
    Option.none_or, ClientTexts.last_lines, last_middleLines, Option.or_assoc, Option.or_assoc]

theorem Alike.request (alike : Alike t t') :
    Protected.exitStatus.last t.requestLines = Protected.exitStatus.last t'.requestLines := by
  let job (v : String) : Job := { exitStatus := if v = "1" then 1 else 2 }
  have facts : ∀ v ∈ ["1", "2"], (job v).Sized ∧
      Protected.exitStatus.last (job v).provisionLines = none ∧
      some (Protected.exitStatus.value (job v)) = Protected.exitStatus.read v := by decide
  refine alike.eq_of_jobs (fun t => Protected.exitStatus.last t.requestLines) job
    (fun v digit => (facts v digit).1) fun v digit t => ?_
  obtain ⟨sized, silent, own⟩ := facts v digit
  rw [Job.last_withTexts_exitStatus sized, silent, own, Option.none_or]

theorem alike_iff : Alike t t' ↔ Matched t t' :=
  ⟨fun alike => ⟨fun _ => alike.all, fun _ => alike.middle, fun _ => alike.late, alike.request⟩,
    fun matched j sized p => by rw [matched.last_lines sized p]⟩

end Forgery

/-- Two jobs that differ in what their submitters wrote come back from the store with the same
protected fields exactly if the texts say the same of these where they are read last. -/
theorem client_texts_confined_iff (t t' : ClientTexts) :
    (∀ j : Job, j.Sized → ∀ (st : Store) (id name : String) (start : Env),
      ∃ k ∈ (Server.boot name (st.saveJob id (j.withTexts t).serialize) start).job id,
      ∃ k' ∈ (Server.boot name (st.saveJob id (j.withTexts t').serialize) start).job id,
        ∀ p : Protected, p.value k = p.value k') ↔ Matched t t' := by
  rw [← alike_iff]
  constructor
  · intro same j sized p
    obtain ⟨k, member, k', member', equal⟩ := same j sized {} "" "" { now := 0 }
    obtain ⟨x, found, value⟩ := Protected.exists_value_boot (j.withTexts t) {} "" "" { now := 0 }
    obtain ⟨x', found', value'⟩ := Protected.exists_value_boot (j.withTexts t') {} "" "" { now := 0 }
    obtain rfl : k = x := Option.some.inj (member.symm.trans found)
    obtain rfl : k' = x' := Option.some.inj (member'.symm.trans found')
    rw [← value, ← value', equal]
  · intro alike j sized st id name start
    obtain ⟨k, found, value⟩ := Protected.exists_value_boot (j.withTexts t) st id name start
    obtain ⟨k', found', value'⟩ := Protected.exists_value_boot (j.withTexts t') st id name start
    exact ⟨k, found, k', found', fun p => by rw [value, value', alike j sized p]⟩

def submitted (t : ClientTexts) : Job :=
  Job.withTexts { owner := "mallory@host", queue := "batch", state := .queued } t

def reloaded (t : ClientTexts) : Option Job :=
  (Server.boot "server" (({} : Store).saveJob "0.server" (submitted t).serialize) { now := 2 }).job
    "0.server"

theorem exists_reloaded (t : ClientTexts) : ∃ k, reloaded t = some k ∧
    ∀ p : Protected, p.value k = (p.last (submitted t).lines).getD (p.value {}) :=
  Protected.exists_value_boot (submitted t) {} "0.server" "server" { now := 2 }

/-- A name with a line break gives the job another owner after a restart. -/
theorem name_forges_owner : (∃ k ∈ reloaded { name := "x" }, k.owner = "mallory@host") ∧
    ∃ k ∈ reloaded { name := "x\nowner=root@host" }, k.owner = "root@host" := by
  constructor
  · obtain ⟨k, found, value⟩ := exists_reloaded { name := "x" }
    have told : Protected.owner.value k = Protected.owner.value { owner := "mallory@host" } := by
      rw [value .owner, submitted, Job.last_withTexts (by decide)]
      decide +kernel
    exact ⟨k, found, told⟩
  · obtain ⟨k, found, value⟩ := exists_reloaded { name := "x\nowner=root@host" }
    have told : Protected.owner.value k = Protected.owner.value { owner := "root@host" } := by
      rw [value .owner, submitted, Job.last_withTexts (by decide)]
      decide +kernel
    exact ⟨k, found, told⟩

end ClientTexts
end OpenTorque.Pbs
