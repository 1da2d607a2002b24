import OpenTorque.Core.Records
import OpenTorque.Server.Document

/-! What survives of a queue in its document. A line is written for each attribute that is
set, the access policy and the host list only next to a host access list; the reader trims
the lines, takes the text before the first equals sign for the key and treats a document
with the mark of the old format as one of that format. -/
namespace OpenTorque.Pbs
open Text (OneLine Word Label trimRight)

/-- With an equals sign in the key the line is cut there. -/
theorem Line.read_broken {head : String}
    (plain : head ≠ "" ∧ (∀ c ∈ head.toList.head?, Text.isSpace c = false) ∧ '=' ∉ head.toList)
    (rest val : String) :
    Line.read (head ++ "=" ++ rest, val) = some (head, trimRight (rest ++ "=" ++ val)) := by
  rw [← Line.read_eq plain, Line.read, Line.read]
  simp [Line.text, String.append_assoc]

def QueueFlag.key : QueueFlag → String
  | enabled => "enabled" | started => "started" | aclUserEnabled => "acl_user_enable"
  | aclGroupEnabled => "acl_group_enable" | aclHostEnabled => "acl_host_enable"

theorem toList_document (lines : List Line) :
    (document lines).toList = (lines.map fun line => line.text.toList ++ ['\n']).flatten := by
  induction lines with
  | nil => rfl
  | cons line lines ih =>
    simp only [document, List.map_cons, String.join_cons] at ih ⊢
    simp [ih, Line.render, Line.text]

/-- A mark that no line is made up of lies in a key or in a value. -/
theorem contains_document {mark : String} (some : mark ≠ "") (apart : '\n' ∉ mark.toList ∧ '=' ∉ mark.toList)
    (lines : List Line) : Text.contains (document lines) mark = true ↔
      ∃ line ∈ lines, Text.contains line.1 mark = true ∨ Text.contains line.2 mark = true := by
  simp only [Text.contains_iff, toList_document]
  induction lines with
  | nil => simpa using some
  | cons line lines ih =>
    have text : line.text.toList = line.1.toList ++ '=' :: line.2.toList := by simp [Line.text]
    rw [List.map_cons, List.flatten_cons, List.append_assoc, List.singleton_append,
      Text.infix_append_cons apart.1, ih, text, Text.infix_append_cons apart.2]
    simp

theorem Line.read_label {key : String} (label : Label key) (val : String) :
    Line.read (key, val) = some (key, trimRight val) :=
  Line.read_eq ⟨label.1, fun c first => label.solid c (List.mem_of_mem_head? first),
    label.not_mem (by decide)⟩ val

theorem QueueNumber.label (f : QueueNumber) : Label f.attr := by cases f <;> decide

theorem QueueText.label (f : QueueText) : Label f.attr := by cases f <;> decide

theorem QueueList.label (f : QueueList) : Label f.attr := by cases f <;> decide

theorem QueueFlag.label (f : QueueFlag) : Label f.key := by cases f <;> decide

namespace Queue
variable {q : Queue} {order : RangeOrder}

/-- An element of a list attribute, as `parseList` finds it. -/
def Item (item : String) : Prop := Word item ∧ ',' ∉ item.toList

/-- The values that requests of one-line texts can give a queue. -/
structure Legible (q : Queue) : Prop where
  number : ∀ f, minInt ≤ q.number f ∧ q.number f ≤ maxInt
  text : ∀ f, OneLine (q.text f) ∧ recoveredText f (q.text f) = q.text f
  list : ∀ f, ∀ item ∈ q.list f, Item item
  limit : ∀ f resc v, (q.resource f).lookup resc = some v → OneLine v

section Lists
variable {items : List String}

theorem solid_join (listed : ∀ item ∈ items, Item item) :
    ∀ c ∈ (Text.join "," items).toList, Text.isSpace c = false := by
  intro c member
  rw [Text.join, String.toList_intercalate] at member
  rcases Text.exists_of_mem_intercalate member with comma | ⟨chars, part, inside⟩
  · obtain rfl : c = ',' := by simpa using comma
    decide
  · obtain ⟨item, here, rfl⟩ := List.mem_map.mp part
    exact (listed item here).1.2 c inside

theorem parseList_join (some : items ≠ []) (listed : ∀ item ∈ items, Item item) :
    parseList (Text.join "," items) = items.eraseDups := by
  have fields : items.flatMap Text.fields = items := by
    rw [List.flatMap_congr fun item member => Text.fields_of_word (listed item member).1,
      List.flatMap_singleton']
  rw [parseList, Text.split_join (by decide) (fun item member => (listed item member).2) some, fields]

theorem item_of_mem_parseList {v item : String} (member : item ∈ parseList v) : Item item := by
  rw [parseList, List.mem_eraseDups, List.mem_flatMap] at member
  obtain ⟨part, listed, inside⟩ := member
  exact ⟨Text.word_of_mem_fields inside, fun comma =>
    Text.not_mem_of_mem_split listed (Text.subset_of_mem_fields inside comma)⟩

end Lists

section ReadLine
variable (q : Queue) (val : String)

theorem readLine_number (f : QueueNumber) :
    q.readLine (f.attr, val) = q.setNumber f (scanInto (q.number f) val) := by
  cases f <;> rfl

theorem readLine_text (f : QueueText) :
    q.readLine (f.attr, val) = q.setText f (recoveredText f val) := by
  cases f <;> rfl

theorem readLine_list (f : QueueList) : q.readLine (f.attr, val) = q.setList f (parseList val) := by
  cases f <;> rfl

theorem readLine_flag (f : QueueFlag) : q.readLine (f.key, val) = q.setFlag f (val = "True") := by
  cases f <;> rfl

theorem readLine_type : q.readLine ("queue_type", val) =
    if val = "Route" then { q with type := .route } else q := rfl

theorem limitOf_append (f : QueueLimits) (resc : String) :
    limitOf (f.attr ++ "." ++ resc) = some (f, resc) := by
  have apart : ∀ g, g ≠ f → Text.afterPrefix (g.attr ++ ".") (f.attr ++ "." ++ resc) = none := by
    intro g other
    cases f <;> cases g <;> first
      | exact absurd rfl other
      | exact Text.afterPrefix_append_none (by decide) (by decide) resc
  have own : Text.afterPrefix (f.attr ++ ".") (f.attr ++ "." ++ resc) = some resc :=
    Text.afterPrefix_append _ _
  cases f with
  | min => simp [limitOf, own]
  | max => simp [limitOf, own, apart .min (by decide)]
  | dflt => simp [limitOf, own, apart .min (by decide), apart .max (by decide)]

theorem eq_of_limitOf {key : String} {f : QueueLimits} {resc : String}
    (limit : limitOf key = some (f, resc)) : key = f.attr ++ "." ++ resc := by
  obtain ⟨g, -, found⟩ := List.exists_of_findSome?_eq_some limit
  obtain ⟨tail, starts, same⟩ := Option.map_eq_some_iff.mp found
  obtain ⟨rfl, rfl⟩ := Prod.mk.inj same
  exact Text.afterPrefix_eq_some starts

theorem readLine_limit (f : QueueLimits) (resc : String) :
    q.readLine (f.attr ++ "." ++ resc, val) = q.setResource f resc val := by
  unfold readLine
  simp only [limitOf_append]

/-- A line sets at most the limit that its key names. -/
theorem readLine_resource (line : Line) (f : QueueLimits) :
    (q.readLine line).resource f = match limitOf line.1 with
      | some (g, resc) => (q.setResource g resc line.2).resource f
      | none => q.resource f := by
  obtain ⟨key, val⟩ := line
  unfold readLine
  dsimp only
  cases limitOf key with
  | some parts => rfl
  | none =>
    dsimp only
    split
    case h_1 impossible => cases impossible
    case h_5 => split <;> first | rfl | (split <;> rfl)
    all_goals rfl

end ReadLine

/-! The attributes for which the document has a line. -/

def WritesNumber (q : Queue) (f : QueueNumber) : Prop :=
  0 < q.number f ∨ f = .priority ∧ q.number f ≠ 0

def WritesText (q : Queue) (f : QueueText) : Prop :=
  q.text f ≠ "" ∧ (f = .naccessPolicy → q.list .aclHosts ≠ [])

def WritesList (q : Queue) (f : QueueList) : Prop :=
  q.list f ≠ [] ∧ (f = .hostList → q.list .aclHosts ≠ [])

/-- The lines of a queue's document, each with what it does to the queue that is being
read back. -/
inductive Written (q : Queue) : Line → (Queue → Queue) → Prop where
  | type : Written q ("queue_type", if q.type = .execution then "Execution" else "Route")
      fun x => { x with type := if q.type = .execution then x.type else .route }
  | flag (f : QueueFlag) (shown : f = .enabled ∨ f = .started ∨ q.flag f = true) :
      Written q (f.key, boolText (q.flag f)) (·.setFlag f (q.flag f))
  | number (f : QueueNumber) (shown : q.WritesNumber f) :
      Written q (f.attr, itoa (q.number f)) (·.setNumber f (q.number f))
  | text (f : QueueText) (shown : q.WritesText f) :
      Written q (f.attr, q.text f) (·.setText f (recoveredText f (trimRight (q.text f))))
  | list (f : QueueList) (shown : q.WritesList f) :
      Written q (f.attr, Text.join "," (q.list f)) (·.setList f (q.list f).eraseDups)
  | fromRoute (shown : q.fromRouteOnly = true) :
      Written q ("from_route_only", "True") (·.setAttr "from_route_only" "True")
  | limit (f : QueueLimits) (resc v : String) (found : (q.resource f).lookup resc = some v)
      (clean : '=' ∉ resc.toList) :
      Written q (f.attr ++ "." ++ resc, v) (·.setResource f resc (trimRight v))
  -- the name of the resource ends at its first equals sign
  | broken (f : QueueLimits) (resc v head tail : String) (found : (q.resource f).lookup resc = some v)
      (cut : Text.cut '=' resc = some (head, tail)) :
      Written q (f.attr ++ "." ++ resc, v) (·.setResource f head (trimRight (tail ++ "=" ++ v)))

section Lines
variable {line : Line}

theorem mem_numberLine {f : QueueNumber} :
    line ∈ q.numberLine f ↔ 0 < q.number f ∧ line = (f.attr, itoa (q.number f)) := by
  rw [numberLine]
  split <;> simp_all

theorem mem_textLine {f : QueueText} :
    line ∈ q.textLine f ↔ q.text f ≠ "" ∧ line = (f.attr, q.text f) := by
  rw [textLine]
  split <;> simp_all

theorem mem_listLine {f : QueueList} :
    line ∈ q.listLine f ↔ q.list f ≠ [] ∧ line = (f.attr, Text.join "," (q.list f)) := by
  rw [listLine]
  split <;> simp_all

theorem mem_flagLine {f : QueueFlag} {key : String} :
    line ∈ q.flagLine f key ↔ q.flag f = true ∧ line = (key, "True") := by
  rw [flagLine]
  split <;> simp_all

theorem mem_resourceLines {f : QueueLimits} : line ∈ q.resourceLines order f ↔
    ∃ resc v, (q.resource f).lookup resc = some v ∧ line = (f.attr ++ "." ++ resc, v) := by
  simp only [resourceLines, List.mem_map, Assoc.mem_range]
  constructor
  · rintro ⟨resc, known, rfl⟩
    obtain ⟨v, found⟩ := Assoc.exists_lookup known
    exact ⟨resc, v, found, by rw [found]; rfl⟩
  · rintro ⟨resc, v, found, rfl⟩
    exact ⟨resc, Assoc.mem_of_lookup found, by rw [found]; rfl⟩

def AllWritten (q : Queue) (lines : List Line) : Prop := ∀ line ∈ lines, ∃ effect, q.Written line effect

theorem allWritten_append {lines more : List Line} :
    q.AllWritten (lines ++ more) ↔ q.AllWritten lines ∧ q.AllWritten more :=
  List.forall_mem_append

theorem allWritten_number (f : QueueNumber) : q.AllWritten (q.numberLine f) := by
  intro line member
  obtain ⟨positive, rfl⟩ := mem_numberLine.mp member
  exact ⟨_, .number f (.inl positive)⟩

theorem allWritten_text {f : QueueText} (other : f ≠ .naccessPolicy) : q.AllWritten (q.textLine f) := by
  intro line member
  obtain ⟨some, rfl⟩ := mem_textLine.mp member
  exact ⟨_, .text f ⟨some, fun same => absurd same other⟩⟩

theorem allWritten_list {f : QueueList} (other : f ≠ .hostList) : q.AllWritten (q.listLine f) := by
  intro line member
  obtain ⟨some, rfl⟩ := mem_listLine.mp member
  exact ⟨_, .list f ⟨some, fun same => absurd same other⟩⟩

theorem allWritten_flag {f : QueueFlag} {key : String} (named : f.key = key) :
    q.AllWritten (q.flagLine f key) := by
  intro line member
  obtain ⟨set, rfl⟩ := mem_flagLine.mp member
  have written := Written.flag f (.inr (.inr set))
  rw [set, named] at written
  exact ⟨_, written⟩

theorem allWritten_limits (f : QueueLimits) : q.AllWritten (q.resourceLines order f) := by
  intro line member
  obtain ⟨resc, v, found, rfl⟩ := mem_resourceLines.mp member
  cases cut : Text.cut '=' resc with
  | none => exact ⟨_, .limit f resc v found (Text.not_mem_of_cut_eq_none cut)⟩
  | some parts => exact ⟨_, .broken f resc v parts.1 parts.2 found cut⟩

theorem allWritten_lines (q : Queue) (order : RangeOrder) : q.AllWritten (q.lines order) := by
  have first : q.AllWritten [("queue_type", if q.type = .execution then "Execution" else "Route"),
      ("enabled", boolText (q.flag .enabled)), ("started", boolText (q.flag .started))] := by
    simp only [AllWritten, List.forall_mem_cons, List.not_mem_nil, IsEmpty.forall_iff, implies_true,
      and_true]
    exact ⟨⟨_, .type⟩, ⟨_, .flag .enabled (.inl rfl)⟩, ⟨_, .flag .started (.inr (.inl rfl))⟩⟩
  have hosts : q.AllWritten (if q.list .aclHosts = [] then []
      else q.textLine .naccessPolicy ++ q.listLine .hostList) := by
    split
    · simp [AllWritten]
    case isFalse some =>
      refine allWritten_append.mpr ⟨fun line member => ?_, fun line member => ?_⟩
      · obtain ⟨set, rfl⟩ := mem_textLine.mp member
        exact ⟨_, .text _ ⟨set, fun _ => some⟩⟩
      · obtain ⟨set, rfl⟩ := mem_listLine.mp member
        exact ⟨_, .list _ ⟨set, fun _ => some⟩⟩
  have fromRoute : q.AllWritten (if q.fromRouteOnly then [("from_route_only", "True")] else []) := by
    split
    case isTrue set =>
      rw [AllWritten, List.forall_mem_singleton]
      exact ⟨_, .fromRoute set⟩
    · simp [AllWritten]
  have priority : q.AllWritten (if q.number .priority = 0 then []
      else [("Priority", itoa (q.number .priority))]) := by
    split
    · simp [AllWritten]
    case isFalse set =>
      rw [AllWritten, List.forall_mem_singleton]
      exact ⟨_, .number .priority (.inr ⟨rfl, set⟩)⟩
  have user : q.AllWritten (q.flagLine .aclUserEnabled "acl_user_enable") := allWritten_flag rfl
  have group : q.AllWritten (q.flagLine .aclGroupEnabled "acl_group_enable") := allWritten_flag rfl
  have host : q.AllWritten (q.flagLine .aclHostEnabled "acl_host_enable") := allWritten_flag rfl
  unfold lines
  simp only [allWritten_append, first, hosts, fromRoute, priority, user, group, host, allWritten_number,
    allWritten_text, allWritten_list, allWritten_limits, ne_eq, reduceCtorEq, not_false_eq_true,
    and_self]

theorem numberLine_subset (q : Queue) (order : RangeOrder) (f : QueueNumber) (other : f ≠ .priority) :
    q.numberLine f ⊆ q.lines order := by
  intro line member
  unfold lines
  cases f <;> first | exact absurd rfl other | simp only [List.mem_append, member, true_or, or_true]

theorem textLine_subset (q : Queue) (order : RangeOrder) (f : QueueText) (other : f ≠ .naccessPolicy) :
    q.textLine f ⊆ q.lines order := by
  intro line member
  unfold lines
  cases f <;> first | exact absurd rfl other | simp only [List.mem_append, member, true_or, or_true]

theorem listLine_subset (q : Queue) (order : RangeOrder) (f : QueueList) (other : f ≠ .hostList) :
    q.listLine f ⊆ q.lines order := by
  intro line member
  unfold lines
  cases f <;> first | exact absurd rfl other | simp only [List.mem_append, member, true_or, or_true]

theorem flagLine_subset (q : Queue) (order : RangeOrder) (f : QueueFlag)
    (other : f ≠ .enabled ∧ f ≠ .started) : q.flagLine f f.key ⊆ q.lines order := by
  intro line member
  unfold lines
  cases f <;> first
    | exact absurd rfl other.1
    | exact absurd rfl other.2
    | (simp only [QueueFlag.key] at member; simp only [List.mem_append, member, true_or, or_true])

theorem resourceLines_subset (q : Queue) (order : RangeOrder) (f : QueueLimits) :
    q.resourceLines order f ⊆ q.lines order := by
  intro line member
  unfold lines
  cases f <;> simp only [List.mem_append, member, true_or, or_true]

theorem mem_of_written {effect : Queue → Queue} (written : q.Written line effect) : line ∈ q.lines order := by
  cases written with
  | type =>
    unfold lines
    simp only [List.mem_append, List.mem_cons, true_or]
  | flag f shown =>
    by_cases first : f = .enabled ∨ f = .started
    · unfold lines
      rcases first with rfl | rfl <;>
        simp only [QueueFlag.key, List.mem_append, List.mem_cons, true_or, or_true]
    · obtain ⟨enabled, started⟩ := not_or.mp first
      have set : q.flag f = true := by simpa [enabled, started] using shown
      refine flagLine_subset q order f ⟨enabled, started⟩ (mem_flagLine.mpr ⟨set, ?_⟩)
      rw [set]
      rfl
  | number f shown =>
    by_cases special : f = .priority
    · have set : q.number .priority ≠ 0 := by
        rcases shown with positive | ⟨-, set⟩
        · exact special ▸ positive.ne'
        · exact special ▸ set
      have here : (f.attr, itoa (q.number f)) ∈ if q.number .priority = 0 then []
          else [("Priority", itoa (q.number .priority))] := by
        rw [if_neg set, special]
        exact List.mem_singleton.mpr rfl
      unfold lines
      simp only [List.mem_append, here, true_or, or_true]
    · exact numberLine_subset q order f special
        (mem_numberLine.mpr ⟨shown.resolve_right fun other => special other.1, rfl⟩)
  | text f shown =>
    by_cases special : f = .naccessPolicy
    · have here : (f.attr, q.text f) ∈ if q.list .aclHosts = [] then []
          else q.textLine .naccessPolicy ++ q.listLine .hostList := by
        rw [if_neg (shown.2 special), special]
        exact List.mem_append_left _ (mem_textLine.mpr ⟨special ▸ shown.1, rfl⟩)
      unfold lines
      simp only [List.mem_append, here, true_or, or_true]
    · exact textLine_subset q order f special (mem_textLine.mpr ⟨shown.1, rfl⟩)
  | list f shown =>
    by_cases special : f = .hostList
    · have here : (f.attr, Text.join "," (q.list f)) ∈ if q.list .aclHosts = [] then []
          else q.textLine .naccessPolicy ++ q.listLine .hostList := by
        rw [if_neg (shown.2 special), special]
        exact List.mem_append_right _ (mem_listLine.mpr ⟨special ▸ shown.1, rfl⟩)
      unfold lines
      simp only [List.mem_append, here, true_or, or_true]
    · exact listLine_subset q order f special (mem_listLine.mpr ⟨shown.1, rfl⟩)
  | fromRoute shown =>
    have here : ("from_route_only", "True") ∈ if q.fromRouteOnly then [("from_route_only", "True")]
        else [] := by
      rw [if_pos shown]
      exact List.mem_singleton.mpr rfl
    unfold lines
    simp only [List.mem_append, here, true_or, or_true]
  | limit f resc v found clean =>
    exact resourceLines_subset q order f (mem_resourceLines.mpr ⟨resc, v, found, rfl⟩)
  | broken f resc v head tail found cut =>
    exact resourceLines_subset q order f (mem_resourceLines.mpr ⟨resc, v, found, rfl⟩)

end Lines

theorem trimRight_boolText (b : Bool) : trimRight (boolText b) = boolText b := by
  cases b <;> decide

section Reading
variable {line : Line} {effect : Queue → Queue}

theorem key_limit (f : QueueLimits) {resc : String} (clean : '=' ∉ resc.toList) :
    f.attr ++ "." ++ resc ≠ "" ∧
      (∀ c ∈ (f.attr ++ "." ++ resc).toList.head?, Text.isSpace c = false) ∧
      '=' ∉ (f.attr ++ "." ++ resc).toList := by
  cases f <;> simp [QueueLimits.attr, Text.isSpace, clean]

/-- Every line of the document is read and has its effect. -/
theorem read_of_written (legible : q.Legible) (written : q.Written line effect) :
    ∃ heard, line.read = some heard ∧ ∀ x : Queue, x.readLine heard = effect x := by
  cases written with
  | type =>
    refine ⟨_, Line.read_label (by decide) _, fun x => ?_⟩
    rw [readLine_type]
    cases q.type <;> rfl
  | flag f shown =>
    refine ⟨_, Line.read_label f.label _, fun x => ?_⟩
    rw [trimRight_boolText, readLine_flag]
    cases q.flag f <;> rfl
  | number f shown =>
    obtain ⟨low, high⟩ := legible.number f
    refine ⟨_, Line.read_label f.label _, fun x => ?_⟩
    rw [trimRight_itoa, readLine_number, scanInto, scanInt_itoa _ low high, Option.getD_some]
  | text f shown =>
    exact ⟨_, Line.read_label f.label _, fun x => x.readLine_text _ f⟩
  | list f shown =>
    refine ⟨_, Line.read_label f.label _, fun x => ?_⟩
    rw [Text.trimRight_of_solid (solid_join (legible.list f)), readLine_list,
      parseList_join shown.1 (legible.list f)]
  | fromRoute shown => exact ⟨_, Line.read_label (by decide) _, fun x => rfl⟩
  | limit f resc v found clean =>
    exact ⟨_, Line.read_eq (key_limit f clean) v, fun x => x.readLine_limit _ f resc⟩
  | broken f resc v head tail found cut =>
    obtain ⟨whole, before⟩ := Text.cut_eq_some cut
    have shape : resc = head ++ "=" ++ tail := String.toList_injective (by simp [whole])
    rw [shape, ← String.append_assoc, ← String.append_assoc]
    exact ⟨_, Line.read_broken (key_limit f before) tail v, fun x => x.readLine_limit _ f head⟩

/-- The queue that the reader makes of the lines of the document. -/
def readBack (q : Queue) (order : RangeOrder) : Queue :=
  ((q.lines order).filterMap Line.read).foldl readLine {}

/-- A field that every line sets to `v` or leaves alone. -/
theorem readBack_settles {V : Type} (field : Queue → V) {v : V} (legible : q.Legible)
    (each : ∀ line effect, q.Written line effect →
      (∀ x, field (effect x) = v) ∨ ∀ x, field (effect x) = field x)
    (told : field {} = v ∨ ∃ line effect, q.Written line effect ∧ ∀ x, field (effect x) = v) :
    field (q.readBack order) = v := by
  refine foldl_settles _ _ (fun heard member => ?_) (told.imp_right ?_)
  · obtain ⟨line, listed, read⟩ := List.mem_filterMap.mp member
    obtain ⟨effect, written⟩ := q.allWritten_lines order line listed
    obtain ⟨_, same, happens⟩ := read_of_written legible written
    obtain rfl := Option.some.inj (read.symm.trans same)
    simp only [happens]
    exact each line effect written
  · rintro ⟨line, effect, written, sets⟩
    obtain ⟨heard, read, happens⟩ := read_of_written legible written
    refine ⟨heard, List.mem_filterMap.mpr ⟨line, mem_of_written written, read⟩, fun x => ?_⟩
    rw [happens]
    exact sets x

theorem readBack_preserves {I : Queue → Prop} (legible : q.Legible) (initial : I {})
    (each : ∀ line effect x, q.Written line effect → I x → I (effect x)) : I (q.readBack order) := by
  unfold readBack
  refine List.foldlRecOn (motive := I) _ _ initial fun x holds heard member => ?_
  obtain ⟨line, listed, read⟩ := List.mem_filterMap.mp member
  obtain ⟨effect, written⟩ := q.allWritten_lines order line listed
  obtain ⟨_, same, happens⟩ := read_of_written legible written
  obtain rfl := Option.some.inj (read.symm.trans same)
  rw [happens]
  exact each line effect x written holds

theorem readBack_type (legible : q.Legible) : (q.readBack order).type = q.type := by
  cases kind : q.type with
  | execution =>
    refine readBack_settles (·.type) legible (fun line effect written => ?_) (.inl rfl)
    cases written with
    | type => exact .inr fun x => by simp only [kind, if_true]
    | _ => exact .inr fun _ => rfl
  | route =>
    have sets : ∀ x : Queue, (if q.type = .execution then x.type else .route) = QueueType.route := by
      simp [kind]
    refine readBack_settles (·.type) legible (fun line effect written => ?_) (.inr ⟨_, _, .type, sets⟩)
    cases written with
    | type => exact .inl sets
    | _ => exact .inr fun _ => rfl

theorem setFlag_flag (x : Queue) (f g : QueueFlag) (v : Bool) :
    (x.setFlag g v).flag f = if f = g then v else x.flag f := Function.update_apply ..

theorem setNumber_number (x : Queue) (f g : QueueNumber) (v : Int) :
    (x.setNumber g v).number f = if f = g then v else x.number f := Function.update_apply ..

theorem setText_text (x : Queue) (f g : QueueText) (v : String) :
    (x.setText g v).text f = if f = g then v else x.text f := Function.update_apply ..

theorem setList_list (x : Queue) (f g : QueueList) (v : List String) :
    (x.setList g v).list f = if f = g then v else x.list f := Function.update_apply ..

theorem readBack_flag (legible : q.Legible) (f : QueueFlag) :
    (q.readBack order).flag f = q.flag f := by
  refine readBack_settles (·.flag f) legible (fun line effect written => ?_) ?_
  · cases written with
    | flag g shown =>
      by_cases same : f = g
      · exact .inl fun x => by rw [setFlag_flag, if_pos same, same]
      · exact .inr fun x => by rw [setFlag_flag, if_neg same]
    | _ => exact .inr fun _ => rfl
  · by_cases shown : f = .enabled ∨ f = .started ∨ q.flag f = true
    · exact .inr ⟨_, _, .flag f shown, fun x => by rw [setFlag_flag, if_pos rfl]⟩
    · simp only [not_or, Bool.not_eq_true] at shown
      refine .inl ?_
      rw [shown.2.2]
      simp [shown.1, shown.2.1]

instance (q : Queue) (f : QueueNumber) : Decidable (q.WritesNumber f) :=
  inferInstanceAs (Decidable (_ ∨ _))

instance (q : Queue) (f : QueueText) : Decidable (q.WritesText f) :=
  inferInstanceAs (Decidable (_ ∧ _))

instance (q : Queue) (f : QueueList) : Decidable (q.WritesList f) :=
  inferInstanceAs (Decidable (_ ∧ _))

theorem readBack_number (legible : q.Legible) (f : QueueNumber) :
    (q.readBack order).number f = if q.WritesNumber f then q.number f else 0 := by
  refine readBack_settles (·.number f) legible (fun line effect written => ?_) ?_
  · cases written with
    | number g shown =>
      by_cases same : f = g
      · exact .inl fun x => by rw [setNumber_number, if_pos same, same, if_pos shown]
      · exact .inr fun x => by rw [setNumber_number, if_neg same]
    | _ => exact .inr fun _ => rfl
  · split
    case isTrue shown =>
      exact .inr ⟨_, _, .number f shown, fun x => by rw [setNumber_number, if_pos rfl]⟩
    · exact .inl rfl

theorem readBack_text (legible : q.Legible) (f : QueueText) : (q.readBack order).text f =
    if q.WritesText f then recoveredText f (trimRight (q.text f)) else "" := by
  refine readBack_settles (·.text f) legible (fun line effect written => ?_) ?_
  · cases written with
    | text g shown =>
      by_cases same : f = g
      · exact .inl fun x => by rw [setText_text, if_pos same, same, if_pos shown]
      · exact .inr fun x => by rw [setText_text, if_neg same]
    | _ => exact .inr fun _ => rfl
  · split
    case isTrue shown =>
      exact .inr ⟨_, _, .text f shown, fun x => by rw [setText_text, if_pos rfl]⟩
    · exact .inl rfl

theorem readBack_list (legible : q.Legible) (f : QueueList) :
    (q.readBack order).list f = if q.WritesList f then (q.list f).eraseDups else [] := by
  refine readBack_settles (·.list f) legible (fun line effect written => ?_) ?_
  · cases written with
    | list g shown =>
      by_cases same : f = g
      · exact .inl fun x => by rw [setList_list, if_pos same, same, if_pos shown]
      · exact .inr fun x => by rw [setList_list, if_neg same]
    | _ => exact .inr fun _ => rfl
  · split
    case isTrue shown =>
      exact .inr ⟨_, _, .list f shown, fun x => by rw [setList_list, if_pos rfl]⟩
    · exact .inl rfl

theorem setResource_lookup (x : Queue) (f g : QueueLimits) (resc name v : String) :
    ((x.setResource g name v).resource f).lookup resc =
      if f = g ∧ resc = name then some v else (x.resource f).lookup resc := by
  rw [setResource]
  by_cases same : f = g
  · subst same
    simp [Assoc.lookup_insert_ite]
  · simp [same]

/-- No resource that is read has an equals sign in its name. -/
theorem readBack_clean (legible : q.Legible) (f : QueueLimits) :
    ∀ resc ∈ (q.readBack order).resource f, '=' ∉ resc.toList := by
  refine readBack_preserves (I := fun x => ∀ resc ∈ x.resource f, '=' ∉ resc.toList) legible
    (fun resc none => absurd none (AList.notMem_empty resc)) fun line effect x written kept => ?_
  have added : ∀ g name v, '=' ∉ name.toList →
      ∀ resc ∈ (x.setResource g name v).resource f, '=' ∉ resc.toList := by
    intro g name v clean resc present
    obtain ⟨w, found⟩ := Assoc.exists_lookup present
    rw [setResource_lookup] at found
    split at found
    case isTrue here => exact here.2 ▸ clean
    case isFalse => exact kept resc (Assoc.mem_of_lookup found)
  cases written with
  | limit g name v found clean => exact added g name _ clean
  | broken g name v head tail found cut => exact added g head _ (Text.cut_eq_some cut).2
  | _ => exact kept

theorem readBack_limit (legible : q.Legible) (f : QueueLimits)
    (clean : ∀ resc ∈ q.resource f, '=' ∉ resc.toList) (resc : String) :
    ((q.readBack order).resource f).lookup resc = ((q.resource f).lookup resc).map trimRight := by
  refine readBack_settles (fun x => (x.resource f).lookup resc) legible
    (fun line effect written => ?_) ?_
  · cases written with
    | limit g name v found named =>
      by_cases same : f = g ∧ resc = name
      · refine .inl fun x => ?_
        rw [setResource_lookup, if_pos same, same.1, same.2, found]
        rfl
      · exact .inr fun x => by rw [setResource_lookup, if_neg same]
    | broken g name v head tail found cut =>
      by_cases same : f = g
      · have marked : '=' ∈ name.toList := by simp [(Text.cut_eq_some cut).1]
        exact absurd marked (clean name (same ▸ Assoc.mem_of_lookup found))
      · exact .inr fun x => by rw [setResource_lookup, if_neg fun both => same both.1]
    | _ => exact .inr fun _ => rfl
  · cases found : (q.resource f).lookup resc with
    | none => exact .inl rfl
    | some v =>
      refine .inr ⟨_, _, .limit f resc v found (clean resc (Assoc.mem_of_lookup found)), fun x => ?_⟩
      rw [setResource_lookup, if_pos ⟨rfl, rfl⟩]
      rfl

end Reading

/-- The mark by which the reader knows the old format. -/
def tag : String := "<queue>"

def Tagged (q : Queue) : Prop :=
  (∃ f, q.WritesText f ∧ Text.contains (q.text f) tag = true) ∨
    (∃ f, q.WritesList f ∧ ∃ item ∈ q.list f, Text.contains item tag = true) ∨
    ∃ f resc v, (q.resource f).lookup resc = some v ∧
      (Text.contains resc tag = true ∨ Text.contains v tag = true)

theorem contains_serialize : Text.contains (q.serialize order) tag = true ↔ q.Tagged := by
  have mark : '<' ∈ tag.toList := by decide
  have free : ∀ s : String, '<' ∉ s.toList → ¬ Text.contains s tag = true := by
    intro s missing found
    exact missing ((Text.contains_iff.mp found).subset mark)
  have number : ∀ n, ¬ Text.contains (itoa n) tag = true := by
    refine fun n => free _ fun member => ?_
    rcases mem_itoa member with sign | digit
    · exact absurd sign (by decide)
    · exact absurd digit (by decide)
  have limit : ∀ (f : QueueLimits) (resc : String),
      Text.contains (f.attr ++ "." ++ resc) tag = true ↔ Text.contains resc tag = true := by
    intro f resc
    rw [Text.contains_iff, Text.contains_iff, String.toList_append]
    constructor
    · exact Text.infix_of_append (by cases f <;> decide)
    · exact fun inside => inside.trans (List.suffix_append _ _).isInfix
  rw [serialize, contains_document (by decide) (by decide)]
  constructor
  · rintro ⟨line, listed, inside⟩
    obtain ⟨effect, written⟩ := q.allWritten_lines order line listed
    cases written with
    | type =>
      rcases inside with key | value
      · exact absurd key (free _ (show '<' ∉ "queue_type".toList by decide))
      · exact absurd value (free _ (by split <;> decide))
    | flag f shown =>
      rcases inside with key | value
      · exact absurd key (free _ (f.label.not_mem (by decide)))
      · exact absurd value (free _ (show '<' ∉ (boolText (q.flag f)).toList by
          cases q.flag f <;> decide))
    | number f shown =>
      rcases inside with key | value
      · exact absurd key (free _ (f.label.not_mem (by decide)))
      · exact absurd value (number _)
    | text f shown =>
      rcases inside with key | value
      · exact absurd key (free _ (f.label.not_mem (by decide)))
      · exact .inl ⟨f, shown, value⟩
    | list f shown =>
      rcases inside with key | value
      · exact absurd key (free _ (f.label.not_mem (by decide)))
      · exact .inr (.inl ⟨f, shown, (Text.contains_join (c := ',') (by decide) (by decide)).mp value⟩)
    | fromRoute shown =>
      rcases inside with key | value
      · exact absurd key (free _ (by decide))
      · exact absurd value (free _ (by decide))
    | limit f resc v found clean =>
      exact .inr (.inr ⟨f, resc, v, found, inside.imp_left (limit f resc).mp⟩)
    | broken f resc v head tail found cut =>
      exact .inr (.inr ⟨f, resc, v, found, inside.imp_left (limit f resc).mp⟩)
  · rintro (⟨f, shown, inside⟩ | ⟨f, shown, inside⟩ | ⟨f, resc, v, found, inside⟩)
    · exact ⟨_, mem_of_written (.text f shown), .inr inside⟩
    · exact ⟨_, mem_of_written (.list f shown),
        .inr ((Text.contains_join (c := ',') (by decide) (by decide)).mpr inside)⟩
    · exact ⟨_, resourceLines_subset q order f (mem_resourceLines.mpr ⟨resc, v, found, rfl⟩),
        inside.imp_left (limit f resc).mpr⟩

theorem whole_of_written (legible : q.Legible) (named : ∀ f, ∀ resc ∈ q.resource f, OneLine resc) :
    ∀ line ∈ q.lines order, Line.Whole line := by
  intro line listed
  obtain ⟨effect, written⟩ := q.allWritten_lines order line listed
  have limit : ∀ (f : QueueLimits) (resc v : String), (q.resource f).lookup resc = some v →
      Line.Whole (f.attr ++ "." ++ resc, v) := by
    intro f resc v found
    exact ⟨OneLine.append (by cases f <;> decide) (named f resc (Assoc.mem_of_lookup found)),
      legible.limit f resc v found⟩
  cases written with
  | type =>
    refine ⟨show OneLine "queue_type" by decide, ?_⟩
    dsimp only
    split <;> decide
  | flag f shown =>
    refine ⟨f.label.not_mem (by decide), ?_⟩
    dsimp only
    cases q.flag f <;> decide
  | number f shown => exact ⟨f.label.not_mem (by decide), oneLine_itoa _⟩
  | text f shown => exact ⟨f.label.not_mem (by decide), (legible.text f).1⟩
  | list f shown =>
    refine ⟨f.label.not_mem (by decide),
      OneLine.join (by decide) fun item member broken => ?_⟩
    exact absurd ((legible.list f item member).1.2 _ broken) (by decide)
  | fromRoute shown => exact ⟨by decide, by decide⟩
  | limit f resc v found clean => exact limit f resc v found
  | broken f resc v head tail found cut => exact limit f resc v found

theorem deserialize_serialize (legible : q.Legible) (named : ∀ f, ∀ resc ∈ q.resource f, OneLine resc)
    (untagged : ¬ q.Tagged) : deserialize (q.serialize order) = q.readBack order := by
  have plain : ¬ Text.contains (q.serialize order) "<queue>" = true :=
    contains_serialize.not.mpr untagged
  rw [deserialize, if_neg plain, serialize, documentLines_document (whole_of_written legible named)]
  rfl

/-- The queues agree on everything that requests set and the document holds. -/
structure SamePolicy (x q : Queue) : Prop where
  type : x.type = q.type
  flag : x.flag = q.flag
  number : x.number = q.number
  text : x.text = q.text
  list : x.list = q.list
  limit : ∀ f resc, (x.resource f).lookup resc = (q.resource f).lookup resc

/-- The attributes that outlive the process. -/
structure Durable (q : Queue) : Prop where
  /-- Only a positive limit is written. -/
  number : ∀ f, f ≠ .priority → 0 ≤ q.number f
  /-- The reader trims the line. -/
  text : ∀ f, trimRight (q.text f) = q.text f
  list : ∀ f, (q.list f).Nodup
  /-- The access policy and the host list are written next to a host access list only. -/
  hosts : q.list .aclHosts = [] → q.text .naccessPolicy = "" ∧ q.list .hostList = []
  limit : ∀ f resc v, (q.resource f).lookup resc = some v →
    OneLine resc ∧ '=' ∉ resc.toList ∧ trimRight v = v
  untagged : ¬ q.Tagged

theorem length_recoveredText (f : QueueText) (s : String) : (recoveredText f s).length = s.length := by
  cases f <;> simp [recoveredText]

/-- A document that is taken for one of the old format loses the value with the mark. -/
theorem SamePolicy.untagged (same : (deserialize (q.serialize order)).SamePolicy q) : ¬ q.Tagged := by
  intro tagged
  have old : Text.contains (q.serialize order) "<queue>" = true := contains_serialize.mpr tagged
  rw [deserialize, if_pos old] at same
  rcases tagged with ⟨f, shown, -⟩ | ⟨f, shown, -⟩ | ⟨f, resc, v, found, -⟩
  · exact shown.1 (congrFun same.text f).symm
  · exact shown.1 (congrFun same.list f).symm
  · rw [← same.limit f resc] at found
    cases found

theorem oneLine_deserialize (doc : String) (f : QueueLimits) :
    ∀ resc ∈ (deserialize doc).resource f, OneLine resc := by
  rw [deserialize]
  split
  · exact fun resc none => absurd none (AList.notMem_empty resc)
  refine List.foldlRecOn (motive := fun x : Queue => ∀ resc ∈ x.resource f, OneLine resc) _ _
    (fun resc none => absurd none (AList.notMem_empty resc)) fun x kept line member resc present => ?_
  have key : OneLine line.1 := by
    obtain ⟨text, listed, cut⟩ := List.mem_filterMap.mp member
    have whole : OneLine text := fun broken => Text.not_mem_of_mem_split listed broken
    exact (whole.trimSpace.cutKey cut).1
  rw [readLine_resource] at present
  split at present
  case h_1 g name limit =>
    obtain ⟨v, found⟩ := Assoc.exists_lookup present
    rw [setResource_lookup] at found
    split at found
    case isTrue here =>
      rw [here.2]
      refine key.of_subset fun c inside => ?_
      rw [eq_of_limitOf limit, String.toList_append]
      exact List.mem_append_right _ inside
    case isFalse => exact kept resc (Assoc.mem_of_lookup found)
  case h_2 => exact kept resc present

theorem durable_of_same (legible : q.Legible) (same : (deserialize (q.serialize order)).SamePolicy q) :
    q.Durable := by
  have untagged := same.untagged
  have named : ∀ f, ∀ resc ∈ q.resource f, OneLine resc := by
    intro f resc known
    obtain ⟨v, found⟩ := Assoc.exists_lookup known
    exact oneLine_deserialize _ f resc (Assoc.mem_of_lookup ((same.limit f resc).trans found))
  rw [deserialize_serialize legible named untagged] at same
  have text : ∀ f, (if q.WritesText f then recoveredText f (trimRight (q.text f)) else "") = q.text f :=
    fun f => (readBack_text legible f).symm.trans (congrFun same.text f)
  have list : ∀ f, (if q.WritesList f then (q.list f).eraseDups else []) = q.list f :=
    fun f => (readBack_list legible f).symm.trans (congrFun same.list f)
  have clean : ∀ f, ∀ resc ∈ q.resource f, '=' ∉ resc.toList := by
    intro f resc known
    obtain ⟨v, found⟩ := Assoc.exists_lookup known
    exact readBack_clean legible f resc (Assoc.mem_of_lookup ((same.limit f resc).trans found))
  refine ⟨fun f other => ?_, fun f => ?_, fun f => ?_, fun none => ⟨?_, ?_⟩, ?_, untagged⟩
  · by_contra negative
    have hidden : ¬ q.WritesNumber f := by
      rintro (positive | ⟨special, -⟩)
      · exact negative positive.le
      · exact other special
    have number := (readBack_number legible f).symm.trans (congrFun same.number f)
    rw [if_neg hidden] at number
    exact negative number.le
  · have back := text f
    split at back
    · refine Text.length_trimRight _ ?_
      rw [← length_recoveredText f, back]
    · rw [← back]
      decide
  · have back := list f
    split at back
    · exact eraseDups_eq_self.mp back
    · rw [← back]
      exact List.nodup_nil
  · have back := text .naccessPolicy
    rw [if_neg fun shown => shown.2 rfl none] at back
    exact back.symm
  · have back := list .hostList
    rw [if_neg fun shown => shown.2 rfl none] at back
    exact back.symm
  · intro f resc v found
    refine ⟨named f resc (Assoc.mem_of_lookup found), clean f resc (Assoc.mem_of_lookup found), ?_⟩
    have back := (readBack_limit legible f (clean f) resc).symm.trans (same.limit f resc)
    rw [found] at back
    exact Option.some.inj back

theorem same_of_durable (legible : q.Legible) (durable : q.Durable) :
    (deserialize (q.serialize order)).SamePolicy q := by
  have named : ∀ f, ∀ resc ∈ q.resource f, OneLine resc := by
    intro f resc known
    obtain ⟨v, found⟩ := Assoc.exists_lookup known
    exact (durable.limit f resc v found).1
  rw [deserialize_serialize legible named durable.untagged]
  refine ⟨readBack_type legible, funext (readBack_flag legible), funext fun f => ?_,
    funext fun f => ?_, funext fun f => ?_, fun f resc => ?_⟩
  · rw [readBack_number legible]
    split
    · rfl
    case isFalse hidden =>
      rw [WritesNumber, not_or, not_and, not_lt, not_not] at hidden
      by_cases special : f = .priority
      · exact (hidden.2 special).symm
      · exact le_antisymm (durable.number f special) hidden.1
  · rw [readBack_text legible]
    split
    · rw [durable.text, (legible.text f).2]
    case isFalse hidden =>
      rw [WritesText, not_and_or, not_not, Classical.not_imp, not_not] at hidden
      rcases hidden with empty | ⟨rfl, none⟩
      · exact empty.symm
      · exact (durable.hosts none).1.symm
  · rw [readBack_list legible]
    split
    · exact eraseDups_eq_self.mpr (durable.list f)
    case isFalse hidden =>
      rw [WritesList, not_and_or, not_not, Classical.not_imp, not_not] at hidden
      rcases hidden with empty | ⟨rfl, none⟩
      · exact empty.symm
      · exact (durable.hosts none).2.symm
  · have clean : ∀ resc ∈ q.resource f, '=' ∉ resc.toList := by
      intro resc known
      obtain ⟨v, found⟩ := Assoc.exists_lookup known
      exact (durable.limit f resc v found).2.1
    rw [readBack_limit legible f clean]
    cases found : (q.resource f).lookup resc with
    | none => rfl
    | some v => exact congrArg some (durable.limit f resc v found).2.2

end Queue
end OpenTorque.Pbs
