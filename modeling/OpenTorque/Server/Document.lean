import Mathlib.Tactic.FinCases
import OpenTorque.Core.Records
import OpenTorque.Server.Store

/-! Reading back a job's document. The document is a sequence of `key=value` lines, so a
line break in a value starts a line of its own; the results ask for values of one line. -/
namespace OpenTorque.Pbs
open Text (OneLine trimRight)

def Line.Whole (line : Line) : Prop := OneLine line.1 ∧ OneLine line.2

def Line.text (line : Line) : String := line.1 ++ "=" ++ line.2

theorem split_document (whole : ∀ line ∈ lines, Line.Whole line) :
    Text.split '\n' (document lines) = lines.map Line.text ++ [""] := by
  have text : document lines = String.join ((lines.map Line.text).map (· ++ "\n")) := by
    rw [document, List.map_map]
    rfl
  rw [text, Text.split_lines]
  intro part member
  obtain ⟨line, listed, rfl⟩ := List.mem_map.mp member
  exact ((whole line listed).1.append (by decide)).append (whole line listed).2

def Line.read (line : Line) : Option Line := Text.cutKey '=' (Text.trimSpace line.text)

theorem documentLines_document (whole : ∀ line ∈ lines, Line.Whole line) :
    documentLines (document lines) = lines.filterMap Line.read := by
  have blank : [""].filterMap (fun line => Text.cutKey '=' (Text.trimSpace line)) = [] := by decide
  have each : (fun line => Text.cutKey '=' (Text.trimSpace line)) ∘ Line.text = Line.read :=
    funext fun line => by rw [Function.comp, Line.read]
  rw [documentLines, split_document whole, List.filterMap_append, List.filterMap_map, each, blank,
    List.append_nil]

/-- A line is read back without the white space at its end. -/
theorem Line.read_eq {key : String}
    (plain : key ≠ "" ∧ (∀ c ∈ key.toList.head?, Text.isSpace c = false) ∧ '=' ∉ key.toList)
    (val : String) : Line.read (key, val) = some (key, trimRight val) := by
  obtain ⟨some, solid, clean⟩ := plain
  have text : (Line.text (key, val)).toList = key.toList ++ '=' :: val.toList := by simp [Line.text]
  have trimmed : (Text.trimSpace (Line.text (key, val))).toList =
      key.toList ++ '=' :: (trimRight val).toList := by
    rw [Text.trimSpace, String.toList_ofList, text, Text.trim_append solid (by decide), trimRight,
      String.toList_ofList]
  rw [Line.read, Text.cutKey, Text.cut_append clean trimmed]
  simp [some]

theorem trimRight_itoa (n : Int) : trimRight (itoa n) = itoa n := by
  refine Text.trimRight_of_solid fun c member => ?_
  rcases mem_itoa member with rfl | digit
  · decide
  · exact isSpace_of_isDigit digit

/-- The key that is read back is what stands before the first equals sign. -/
theorem Line.read_key {line : Line} (solid : ∀ c ∈ line.1.toList.head?, Text.isSpace c = false)
    (found : line.read = some (key, val)) : key.toList <+: line.1.toList := by
  have shape : (Text.trimSpace line.text).toList =
      line.1.toList ++ '=' :: line.2.toList.rdropWhile Text.isSpace := by
    have text : line.text.toList = line.1.toList ++ '=' :: line.2.toList := by simp [Line.text]
    rw [Text.trimSpace, String.toList_ofList, text, Text.trim_append solid (by decide)]
  simp only [Line.read, Text.cutKey, Option.filter_eq_some_iff] at found
  obtain ⟨parts, clean⟩ := Text.cut_eq_some found.1
  rw [shape] at parts
  rcases List.append_eq_append_iff.mp parts with ⟨more, longer, rest⟩ | ⟨more, shorter, rest⟩
  · cases more with
    | nil => simp [longer]
    | cons c more =>
      rw [List.cons_append] at rest
      obtain ⟨rfl, -⟩ := List.cons.inj rest
      exact absurd (by simp [longer]) clean
  · exact ⟨more, shorter.symm⟩

namespace Job

theorem readLine_state {line : Line} (other : line.1 ≠ "state") (j : Job) :
    (j.readLine line).state = j.state := by
  unfold readLine
  split
  case h_1 => exact absurd rfl other
  case h_21 => split <;> rfl
  all_goals rfl

/-- Lines that do not start with the word `state` leave the state alone. -/
theorem readLines_state (lines : List Line)
    (solid : ∀ line ∈ lines, ∀ c ∈ line.1.toList.head?, Text.isSpace c = false)
    (other : ∀ line ∈ lines, ¬ "state".toList <+: line.1.toList) (j : Job) :
    ((lines.filterMap Line.read).foldl readLine j).state = j.state := by
  induction lines generalizing j with
  | nil => rfl
  | cons line lines ih =>
    have rest := ih (fun line member => solid line (by simp [member]))
      (fun line member => other line (by simp [member]))
    cases found : line.read with
    | none => simpa [found] using rest j
    | some pair =>
      have key : pair.1 ≠ "state" := by
        intro same
        have start := Line.read_key (solid line (by simp)) found
        exact other line (by simp) (same ▸ start)
      simp only [List.filterMap_cons, found, List.foldl_cons]
      rw [rest, readLine_state key]

/-- The fields of a job that its document carries are texts of one line, and its state
has a number of 64 bits. -/
structure Plain (j : Job) : Prop where
  state : minInt ≤ j.state.code ∧ j.state.code ≤ maxInt
  queue : OneLine j.queue
  owner : OneLine j.owner
  execHost : OneLine j.execHost
  text : ∀ field ∈ [JobText.name, .euser, .egroup, .stdoutPath, .stderrPath], OneLine (j.text field)
  request : ∀ name v, j.resourceReq.lookup name = some v → OneLine name ∧ OneLine v
  provision : OneLine j.provisionVM ∧ OneLine j.provisionNode

namespace Plain
variable {j : Job}

theorem whole_textLine (named : OneLine key) (plain : OneLine value) :
    ∀ line ∈ Job.textLine key value, Line.Whole line := by
  intro line member
  unfold Job.textLine at member
  split at member
  · simp at member
  · rw [List.mem_singleton.mp member]
    exact ⟨named, plain⟩

theorem whole_timeLine (named : OneLine key) (t : Time) :
    ∀ line ∈ Job.timeLine key t, Line.Whole line := by
  intro line member
  unfold Job.timeLine at member
  split at member
  · simp at member
  · rw [List.mem_singleton.mp member]
    exact ⟨named, oneLine_itoa _⟩

theorem whole_requestLines (plain : j.Plain) : ∀ line ∈ j.requestLines, Line.Whole line := by
  intro line member
  obtain ⟨name, listed, rfl⟩ := List.mem_map.mp member
  obtain ⟨v, found⟩ := Assoc.exists_lookup
    (AList.mem_keys.mpr (by simpa using listed) : name ∈ j.resourceReq)
  obtain ⟨key, value⟩ := plain.request name v found
  exact ⟨OneLine.append (by decide) key, by simpa [found] using value⟩

theorem whole_fieldLines (plain : j.Plain) : ∀ line ∈ j.fieldLines, Line.Whole line := by
  intro line member
  have text := plain.text
  simp only [List.mem_cons, List.not_mem_nil, or_false, forall_eq_or_imp, forall_eq] at text
  obtain ⟨name, euser, egroup, stdout, stderr⟩ := text
  have fields : ∀ line ∈ j.fieldLines, OneLine line.2 := by
    simp only [fieldLines, List.mem_cons, List.not_mem_nil, or_false, forall_eq_or_imp, forall_eq]
    exact ⟨oneLine_itoa _, plain.queue, plain.owner, name, euser, egroup, plain.execHost, stdout,
      stderr, oneLine_itoa _, oneLine_itoa _, oneLine_itoa _, oneLine_itoa _, oneLine_itoa _,
      oneLine_itoa _⟩
  have keys : ∀ key ∈ j.fieldLines.map Prod.fst, OneLine key := by
    simp only [fieldLines, List.map_cons, List.map_nil]
    decide
  exact ⟨keys _ (List.mem_map_of_mem member), fields line member⟩

theorem whole (plain : j.Plain) : ∀ line ∈ j.lines, Line.Whole line := by
  intro line member
  simp only [Job.lines, timeLines, provisionLines, List.mem_cons, List.mem_append] at member
  rcases member with
    state | (((fixed | (((comp | start) | qtime) | create)) | request) | (vm | node))
  · rw [state]
    exact ⟨(by decide : OneLine "state"), oneLine_itoa _⟩
  · exact plain.whole_fieldLines line fixed
  · exact whole_timeLine (by decide) _ line comp
  · exact whole_timeLine (by decide) _ line start
  · exact whole_timeLine (by decide) _ line qtime
  · exact whole_timeLine (by decide) _ line create
  · exact plain.whole_requestLines line request
  · exact whole_textLine (by decide) plain.provision.1 line vm
  · exact whole_textLine (by decide) plain.provision.2 line node

end Plain

/-- The keys of the lines after the first, resource requests apart. -/
def plainKeys : List String :=
  ["substate", "queue", "owner", "name", "euser", "egroup", "exec_host", "stdout", "stderr",
    "exec_port", "session", "exit_status", "priority", "node_count", "task_count", "comp_time",
    "start_time", "qtime", "create_time", "provision_vm", "provision_node"]

theorem mem_timeLine {line : Line} (member : line ∈ timeLine key t) : line.1 = key := by
  unfold timeLine at member
  split at member <;> simp_all

theorem mem_textLine {line : Line} (member : line ∈ textLine key value) : line.1 = key := by
  unfold textLine at member
  split at member <;> simp_all

theorem key_of_mem_plainLines (j : Job) {line : Line}
    (member : line ∈ j.fieldLines ++ j.timeLines ++ j.provisionLines) : line.1 ∈ plainKeys := by
  simp only [timeLines, provisionLines, List.mem_append] at member
  rcases member with (fixed | (((comp | start) | qtime) | create)) | (vm | node)
  · have keys : ∀ key ∈ j.fieldLines.map Prod.fst, key ∈ plainKeys := by
      simp only [fieldLines, List.map_cons, List.map_nil]
      decide
    exact keys _ (List.mem_map_of_mem fixed)
  · simp [mem_timeLine comp, plainKeys]
  · simp [mem_timeLine start, plainKeys]
  · simp [mem_timeLine qtime, plainKeys]
  · simp [mem_timeLine create, plainKeys]
  · simp [mem_textLine vm, plainKeys]
  · simp [mem_textLine node, plainKeys]

theorem key_of_mem_lines (j : Job) {line : Line}
    (member : line ∈ j.fieldLines ++ j.timeLines ++ j.requestLines ++ j.provisionLines) :
    line.1 ∈ plainKeys ∨ ∃ name, line.1 = "req." ++ name := by
  simp only [List.mem_append] at member
  rcases member with (fixed | request) | provision
  · exact .inl (j.key_of_mem_plainLines (List.mem_append_left _ (List.mem_append.mpr fixed)))
  · obtain ⟨name, -, rfl⟩ := List.mem_map.mp request
    exact .inr ⟨name, rfl⟩
  · exact .inl (j.key_of_mem_plainLines (List.mem_append_right _ provision))

theorem read_stateLine (n : Int) : Line.read ("state", itoa n) = some ("state", itoa n) := by
  rw [Line.read_eq (by decide), trimRight_itoa]

theorem deserialize_state {j : Job} (plain : j.Plain) (server : String) (now : Time) :
    (deserialize j.serialize server now).state = j.state := by
  have fixed : ∀ key ∈ plainKeys, (∀ c ∈ key.toList.head?, Text.isSpace c = false) ∧
      ¬ "state".toList <+: key.toList := by decide
  have other : ∀ line ∈ j.fieldLines ++ j.timeLines ++ j.requestLines ++ j.provisionLines,
      (∀ c ∈ line.1.toList.head?, Text.isSpace c = false) ∧
        ¬ "state".toList <+: line.1.toList := by
    intro line member
    rcases j.key_of_mem_lines member with plainKey | ⟨name, request⟩
    · exact fixed _ plainKey
    · rw [request]
      simp [Text.isSpace]
  rw [deserialize, serialize, documentLines_document plain.whole, lines, List.filterMap_cons,
    read_stateLine, List.foldl_cons, readLines_state _ (fun line member => (other line member).1)
      (fun line member => (other line member).2)]
  simp [readLine, scanState, scanInt_itoa _ plain.state.1 plain.state.2, JobState.ofCode_code]

end Job

end OpenTorque.Pbs
