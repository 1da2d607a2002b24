import OpenTorque.Core.Markup
import OpenTorque.Server.Step

/-! Reading back `serverdb`. The document is not escaped and the reader searches the whole
of it for every tag, so a value that holds a tag stands in for the setting of that tag. -/
namespace OpenTorque.Pbs
open Markup (Element IsTag IsMark following)

namespace Config
variable {c : Config} {order : RangeOrder} {n : Int}

theorem kindOf_setting : ∀ s ∈ settings, kindOf s.1 = some s.2 := by decide +kernel

def punctuation : List Char := ['<', '>', '.', '/', '?', ',']

theorem plain_setting (setting : s ∈ settings) : ∀ ch ∈ punctuation, ch ∉ s.1.toList := by
  have bytes : ∀ s ∈ settings, ∀ b ∈ s.1.toByteArray.data.toList,
      b ∉ ([60, 62, 46, 47, 63, 44] : List UInt8) := by decide +kernel
  have codes : ∀ ch ∈ punctuation, ∃ b ∈ ([60, 62, 46, 47, 63, 44] : List UInt8),
      String.utf8EncodeChar ch = [b] := by decide +kernel
  intro ch listed
  obtain ⟨b, known, code⟩ := codes ch listed
  exact Text.not_mem_of_bytes code fun member => bytes s setting b member known

theorem isTag_setting (setting : s ∈ settings) : IsTag s.1.toList :=
  ⟨plain_setting setting '<' (by decide), plain_setting setting '>' (by decide)⟩

theorem resources_setting : (settings.filter (·.2 = .resources)).map (·.1) = resourceTags := rfl

def element (tag value : String) : Element := ⟨tag.toList, value.toList⟩

/-- The value that is written for a setting with one value. -/
def scalar (c : Config) : String × SettingKind → Option String
  | (tag, .number) => some (itoa (c.number tag))
  | (tag, .flag) => some (if c.flag tag then "True" else "False")
  | (tag, .text) | (tag, .list) => if c.text tag = "" then none else some (c.text tag)
  | (_, .resources) => none

def resourceElements (c : Config) (order : RangeOrder) (tag : String) : List Element :=
  ((c.resources tag).range order).map fun k =>
    element (tag ++ "." ++ k) (((c.resources tag).lookup k).getD "")

/-- The elements `saveServerDB` writes for one setting. -/
def settingElements (c : Config) (order : RangeOrder) (s : String × SettingKind) : List Element :=
  (c.scalar s).toList.map (element s.1) ++
    if s.2 = .resources then c.resourceElements order s.1 else []

def elements (c : Config) (order : RangeOrder) (nextJobID : Int) : List Element :=
  element "nextjobid" (itoa nextJobID) :: settings.flatMap (c.settingElements order)

/-- The text of elements as it stands in the document. -/
abbrev body (es : List Element) : List Char := Markup.document [' ', ' '] ['\n'] es

def preamble : String := "<?xml version=\"1.0\" encoding=\"UTF-8\"?>\n<server_db>\n"

def closing : String := "</server_db>\n"

theorem writeTag_toList (tag value : String) :
    (writeTag tag value).toList = body [element tag value] := by
  simp [writeTag, body, Markup.document, element, Element.text]

theorem writeSetting_toList (s : String × SettingKind) :
    (c.writeSetting order s).toList = body (c.settingElements order s) := by
  obtain ⟨tag, kind⟩ := s
  cases kind with
  | number => exact writeTag_toList ..
  | flag => exact writeTag_toList ..
  | text | list =>
    simp only [writeSetting, settingElements, scalar]
    split
    · rfl
    · exact writeTag_toList ..
  | resources =>
    show (String.join _).toList = body ([] ++ c.resourceElements order tag)
    rw [resourceElements, List.nil_append]
    generalize (c.resources tag).range order = keys
    induction keys with
    | nil => rfl
    | cons k keys ih =>
      rw [List.map_cons, String.join_cons, String.toList_append, ih, writeTag_toList]
      simp [body, Markup.document]

theorem serverDB_eq (n : Int) : (c.serverDB order n).toList =
    preamble.toList ++ (body (c.elements order n) ++ closing.toList) := by
  have written : ∀ list : List (String × SettingKind),
      (String.join (list.map (c.writeSetting order))).toList =
        body (list.flatMap (c.settingElements order)) := by
    intro list
    induction list with
    | nil => rfl
    | cons s list ih =>
      rw [List.map_cons, String.join_cons, String.toList_append, ih, writeSetting_toList]
      simp [body, Markup.document]
  unfold serverDB
  rw [String.toList_append, String.toList_append, String.toList_append, written, writeTag_toList,
    ← preamble, ← closing]
  simp only [elements, body, Markup.document, List.flatMap_cons, List.flatMap_nil, List.append_nil,
    List.append_assoc]

/-- A mark the reader looks for, which is not in the frame of the document. -/
structure Sought (m : List Char) : Prop extends IsMark m where
  xml : ∀ rest, ¬ m <+: '?' :: rest
  root : ∀ rest, ¬ m <+: "server_db>\n".toList ++ rest

theorem following_preamble (sought : Sought m) (b : List Char) :
    following ('<' :: m) (preamble.toList ++ b) = following ('<' :: m) b := by
  have text : preamble.toList ++ b =
      '<' :: (("?xml version=\"1.0\" encoding=\"UTF-8\"?>\n").toList ++
        '<' :: ("server_db>\n".toList ++ b)) := by simp [preamble]
  have xml : ¬ m <+: ("?xml version=\"1.0\" encoding=\"UTF-8\"?>\n").toList ++
      '<' :: ("server_db>\n".toList ++ b) := sought.xml _
  rw [text, Markup.following_cons xml, Markup.following_append (by decide),
    Markup.following_cons (sought.root b), Markup.following_append (by decide)]

theorem following_closing (sought : Sought m) : following ('<' :: m) closing.toList = none := by
  have text : closing.toList = '<' :: ("/server_db>\n".toList ++ []) := by simp [closing]
  have opening : ¬ m <+: "/server_db>\n".toList ++ [] := sought.opening _
  rw [text, Markup.following_cons opening, Markup.following_append (by decide)]
  rfl

theorem sought_setting (setting : s ∈ settings) : Sought (s.1.toList ++ ['>']) := by
  have plain (ch : Char) (listed : ch ∈ punctuation) (rest : List Char) (other : ch ≠ '>') :
      ¬ s.1.toList ++ ['>'] <+: ch :: rest := by
    intro starts
    cases chars : s.1.toList with
    | nil =>
      rw [chars] at starts
      exact other (List.cons_prefix_cons.mp starts).1.symm
    | cons d t =>
      rw [chars] at starts
      refine plain_setting setting ch listed ?_
      rw [chars, (List.cons_prefix_cons.mp starts).1]
      exact List.mem_cons_self
  refine { toIsMark := ⟨by simpa using (isTag_setting setting).1, fun rest => ?_⟩, xml := ?_, root := ?_ }
  · exact plain '/' (by decide) rest (by decide)
  · exact fun rest => plain '?' (by decide) rest (by decide)
  · intro rest starts
    have same : s.1.toList = "server_db".toList :=
      Markup.prefix_tag (isTag_setting setting).2 (by decide)
        (by simpa using starts : _ <+: "server_db".toList ++ '>' :: ('\n' :: rest))
    have kind := kindOf_setting s setting
    rw [String.toList_injective same, show kindOf "server_db" = none by decide] at kind
    cases kind

theorem sought_resources (listed : tag ∈ resourceTags) : Sought (tag ++ ".").toList := by
  have shape : ∀ tag ∈ resourceTags,
      (tag ++ ".").toList.head? = some 'r' ∧ '<' ∉ (tag ++ ".").toList := by decide
  obtain ⟨first, apart⟩ := shape tag listed
  have plain (ch : Char) (rest : List Char) (other : 'r' ≠ ch) :
      ¬ (tag ++ ".").toList <+: ch :: rest := by
    intro starts
    cases chars : (tag ++ ".").toList with
    | nil => simp [chars] at first
    | cons d t =>
      rw [chars] at first starts
      exact other ((Option.some.inj first).symm.trans (List.cons_prefix_cons.mp starts).1)
  exact { apart, opening := fun rest => plain '/' rest (by decide)
          xml := fun rest => plain '?' rest (by decide)
          root := fun rest => plain 's' _ (by decide) }

/-- What the reader looks for after a bracket: the tags, and the resource tags up to the
name of a resource. -/
def marks : List String := xmlTags.map (· ++ ">") ++ resourceTags.map (· ++ ".")

/-- A value that the reader cannot take for a tag. -/
def Tagless (v : String) : Prop :=
  ∀ mark ∈ marks, Text.contains v ("<" ++ mark) = false ∧ Text.contains v ("</" ++ mark) = false

instance (v : String) : Decidable (Tagless v) :=
  inferInstanceAs (Decidable (∀ mark ∈ marks, _))

section Tagless
variable {v w : String}

theorem tagless_of_bracket (free : '<' ∉ v.toList) : Tagless v := by
  intro mark _
  constructor <;>
  · rw [Bool.eq_false_iff, Ne, Text.contains_iff]
    intro inside
    exact free (inside.subset (by simp))

theorem Tagless.silent (tagless : Tagless v) (listed : mark ∈ marks) :
    ¬ '<' :: mark.toList <:+: v.toList ∧ ¬ '<' :: '/' :: mark.toList <:+: v.toList := by
  obtain ⟨opened, closed⟩ := tagless mark listed
  rw [Bool.eq_false_iff, Ne, Text.contains_iff] at opened closed
  exact ⟨by simpa using opened, by simpa using closed⟩

theorem mem_marks_xml (listed : tag ∈ xmlTags) : tag ++ ">" ∈ marks :=
  List.mem_append_left _ (List.mem_map_of_mem listed)

theorem mem_marks_resources (listed : tag ∈ resourceTags) : tag ++ "." ∈ marks :=
  List.mem_append_right _ (List.mem_map_of_mem listed)

end Tagless

/-- What requests without tags in their values can make of the configuration. -/
structure Legible (c : Config) : Prop where
  number : ∀ name, minInt ≤ c.number name ∧ c.number name ≤ maxInt
  text : ∀ name, Tagless (c.text name)
  resources : ∀ tag k v, (c.resources tag).lookup k = some v → IsTag k.toList ∧ Tagless v
  unread : ∀ name ∈ unread, c.number name = defaultNumber name ∧ c.flag name = defaultFlag name

/-- An element that the reader takes as it was meant. -/
structure Sound (e : Element) : Prop where
  tag : IsTag e.tag
  value : Tagless (.ofList e.value)

theorem sound_element {tag v : String} (isTag : IsTag tag.toList) (tagless : Tagless v) :
    Sound (element tag v) := ⟨isTag, by rwa [element, String.ofList_toList]⟩

theorem tagless_scalar (legible : c.Legible) (written : c.scalar s = some v) : Tagless v := by
  obtain ⟨tag, kind⟩ := s
  cases kind with
  | number =>
    obtain rfl := Option.some.inj written
    exact tagless_of_bracket fun member => by simpa using mem_itoa member
  | flag =>
    obtain rfl := Option.some.inj written
    refine tagless_of_bracket ?_
    split <;> decide
  | text | list =>
    obtain rfl := Option.some.inj (Option.ite_none_left_eq_some.mp written).2
    exact legible.text tag
  | resources => cases written

theorem sound_elements (legible : c.Legible) : ∀ e ∈ c.elements order n, Sound e := by
  have numeral : '<' ∉ (itoa n).toList := fun member => by simpa using mem_itoa member
  intro e member
  rcases List.mem_cons.mp member with rfl | member
  · exact sound_element (by decide) (tagless_of_bracket numeral)
  · obtain ⟨s, setting, written⟩ := List.mem_flatMap.mp member
    rcases List.mem_append.mp written with here | here
    · obtain ⟨v, value, rfl⟩ := List.mem_map.mp here
      exact sound_element (isTag_setting setting) (tagless_scalar legible (Option.mem_toList.mp value))
    · obtain ⟨-, here⟩ := List.mem_ite_nil_right.mp here
      obtain ⟨k, listed, rfl⟩ := List.mem_map.mp here
      obtain ⟨v, found⟩ := Assoc.exists_lookup ((Assoc.mem_range ..).mp listed)
      obtain ⟨name, tagless⟩ := legible.resources s.1 k v found
      rw [found]
      refine sound_element ⟨?_, ?_⟩ tagless
      · simpa using ⟨(isTag_setting setting).1, name.1⟩
      · simpa using ⟨(isTag_setting setting).2, name.2⟩

theorem setting_eq (first : s ∈ settings) (second : u ∈ settings) (same : s.1 = u.1) : s = u := by
  have kind := (kindOf_setting s first).symm.trans (same ▸ kindOf_setting u second)
  exact Prod.ext same (Option.some.inj kind)

theorem mem_elements_setting (setting : s ∈ settings) {e : Element}
    (member : e ∈ c.elements order n) (tag : e.tag = s.1.toList) :
    ∃ v, c.scalar s = some v ∧ e.value = v.toList := by
  rcases List.mem_cons.mp member with rfl | member
  · have kind := kindOf_setting s setting
    rw [← String.toList_injective tag, show kindOf "nextjobid" = none by decide] at kind
    cases kind
  · obtain ⟨u, other, written⟩ := List.mem_flatMap.mp member
    rcases List.mem_append.mp written with here | here
    · obtain ⟨v, value, rfl⟩ := List.mem_map.mp here
      obtain rfl := setting_eq other setting (String.toList_injective tag)
      exact ⟨v, Option.mem_toList.mp value, rfl⟩
    · obtain ⟨-, here⟩ := List.mem_ite_nil_right.mp here
      obtain ⟨k, -, rfl⟩ := List.mem_map.mp here
      refine absurd ?_ (plain_setting setting '.' (by decide))
      rw [← tag]
      simp [element]

theorem extract_serverDB (legible : c.Legible) (setting : s ∈ settings) (read : s.1 ∈ xmlTags) :
    Markup.extract s.1.toList (c.serverDB order n).toList = (c.scalar s).map String.toList := by
  have sound : ∀ e ∈ c.elements order n, Sound e := sound_elements legible
  have silent : ∀ e ∈ c.elements order n, ¬ '<' :: (s.1.toList ++ ['>']) <:+: e.value := by
    intro e member
    have apart := ((sound e member).value.silent (mem_marks_xml read)).1
    simpa using apart
  have plain : s.1.toList.head? ≠ some '/' := fun first =>
    plain_setting setting '/' (by decide) (List.mem_of_head? first)
  have skipped : Markup.extract s.1.toList (c.serverDB order n).toList =
      Markup.extract s.1.toList (body (c.elements order n) ++ closing.toList) := by
    rw [Markup.extract, serverDB_eq, following_preamble (sought_setting setting), Markup.extract]
  rw [skipped]
  cases written : c.scalar s with
  | none =>
    refine Markup.extract_document_none (by decide) (isTag_setting setting) plain
      (fun e member => (sound e member).tag) silent (fun e member tag => ?_) _
      (following_closing (sought_setting setting))
    obtain ⟨v, value, -⟩ := mem_elements_setting setting member tag
    rw [written] at value
    cases value
  | some v =>
    have closed := ((tagless_scalar legible written).silent (mem_marks_xml read)).2
    refine Markup.extract_document_some (by decide) (isTag_setting setting) plain
      (fun e member => (sound e member).tag) silent (by simpa using closed) ?_
      (fun e member tag => ?_) _
    · refine List.mem_cons_of_mem _ (List.mem_flatMap.mpr ⟨s, setting, List.mem_append_left _ ?_⟩)
      exact List.mem_map.mpr ⟨v, Option.mem_toList.mpr written, rfl⟩
    · obtain ⟨w, value, same⟩ := mem_elements_setting setting member tag
      rw [written] at value
      rw [same, Option.some.inj value]

theorem extractXMLTag_eq (content tag : String) : extractXMLTag content tag =
    ((Markup.extract tag.toList content.toList).map fun v => String.ofList (Text.trim v)).getD "" := by
  have opened : ("<" ++ tag ++ ">").toList = '<' :: (tag.toList ++ ['>']) := by simp
  have closed : ("</" ++ tag ++ ">").toList = '<' :: '/' :: tag.toList ++ ['>'] := by simp
  rw [extractXMLTag, Markup.extract, Markup.following, Text.cutText, opened]
  cases Text.cutChars ('<' :: (tag.toList ++ ['>'])) content.toList with
  | none => rfl
  | some parts =>
    simp only [Option.map_some, Text.cutText, closed, String.toList_ofList, Option.bind_eq_bind,
      Option.bind_some]
    cases Text.cutChars ('<' :: '/' :: tag.toList ++ ['>']) parts.2 with
    | none => rfl
    | some value => simp [Text.trimSpace]

theorem extractXMLTag_serverDB (legible : c.Legible) (setting : s ∈ settings)
    (read : s.1 ∈ xmlTags) :
    extractXMLTag (c.serverDB order n) s.1 = ((c.scalar s).map Text.trimSpace).getD "" := by
  rw [extractXMLTag_eq, extract_serverDB legible setting read, Option.map_map]
  rfl

section Entries
variable {tag content : List Char}

/-- One round of the loop, by what follows the mark it looks for. -/
theorem resourceEntries_succ (tag : List Char) (fuel : Nat) (content : List Char) :
    resourceEntries tag (fuel + 1) content =
      match following ('<' :: (tag ++ ['.'])) content with
      | none => []
      | some rest =>
        match rest.span (· ≠ '>') with
        | (_, []) => []
        | (resc, _ :: body) =>
          match Text.cutChars ('<' :: '/' :: tag ++ '.' :: resc ++ ['>']) body with
          | none => []
          | some (value, rest) =>
            (.ofList resc, .ofList (Text.trim value)) :: resourceEntries tag fuel rest := by
  rw [resourceEntries, following, List.cons_append]
  cases Text.cutChars ('<' :: (tag ++ ['.'])) content <;> rfl

theorem resourceEntries_found (found : following ('<' :: (tag ++ ['.'])) content =
      some (resc ++ '>' :: inside)) (clean : '>' ∉ resc)
    (closed : Text.cutChars ('<' :: '/' :: tag ++ '.' :: resc ++ ['>']) inside = some (value, rest)) :
    resourceEntries tag (fuel + 1) content =
      (.ofList resc, .ofList (Text.trim value)) :: resourceEntries tag fuel rest := by
  have kept : ∀ ch ∈ resc, decide (ch ≠ '>') = true := by
    intro ch member
    simp only [ne_eq, decide_eq_true_eq]
    rintro rfl
    exact clean member
  have parts : (resc ++ '>' :: inside).span (· ≠ '>') = (resc, '>' :: inside) := by
    rw [List.span_eq_takeWhile_dropWhile, List.takeWhile_append_of_pos kept,
      List.dropWhile_append_of_pos kept]
    simp
  rw [resourceEntries_succ, found]
  simp only [parts, closed]

/-- The entry of an element with a resource tag. -/
def entryOf (tag : List Char) (e : Element) : Option (String × String) :=
  if tag ++ ['.'] <+: e.tag then
    some (.ofList (e.tag.drop (tag ++ ['.']).length), .ofList (Text.trim e.value))
  else none

/-- The loop finds the elements with a resource tag one after the other. -/
theorem resourceEntries_document {tag : String} (listed : tag ∈ resourceTags) {es : List Element}
    (sound : ∀ e ∈ es, Sound e) {fuel : Nat} (enough : es.length < fuel) {lead : List Char}
    (clean : '<' ∉ lead) :
    resourceEntries tag.toList fuel (lead ++ (body es ++ closing.toList)) =
      es.filterMap (entryOf tag.toList) := by
  have sought : Sought (tag.toList ++ ['.']) := by simpa using sought_resources listed
  have bracket : '>' ∉ tag.toList ++ ['.'] := by
    have names : ∀ tag ∈ resourceTags, '>' ∉ tag.toList ++ ['.'] := by decide
    exact names tag listed
  induction es generalizing fuel lead with
  | nil =>
    obtain ⟨fuel, rfl⟩ := Nat.exists_eq_add_one_of_ne_zero (Nat.ne_zero_of_lt enough)
    rw [resourceEntries_succ, Markup.following_append clean,
      show body [] ++ closing.toList = closing.toList from rfl, following_closing sought]
    rfl
  | cons e es ih =>
    obtain ⟨fuel, rfl⟩ := Nat.exists_eq_add_one_of_ne_zero (Nat.ne_zero_of_lt enough)
    obtain ⟨here, later⟩ := List.forall_mem_cons.mp sound
    have split : lead ++ (body (e :: es) ++ closing.toList) =
        lead ++ ([' ', ' '] ++ (e.text ++ (['\n'] ++ (body es ++ closing.toList)))) := by
      simp [body, Markup.document]
    have silent := here.value.silent (mem_marks_resources listed)
    rw [String.toList_ofList, String.toList_append] at silent
    rw [split]
    by_cases starts : tag.toList ++ ['.'] <+: e.tag
    · obtain ⟨resc, whole⟩ := starts
      have tag_eq : e.tag = tag.toList ++ '.' :: resc := by simp [← whole]
      have found : following ('<' :: (tag.toList ++ ['.']))
          (lead ++ ([' ', ' '] ++ (e.text ++ (['\n'] ++ (body es ++ closing.toList))))) =
          some (resc ++ '>' :: (e.value ++
            '<' :: ('/' :: e.tag ++ ['>'] ++ (['\n'] ++ (body es ++ closing.toList))))) := by
        rw [Markup.following_append clean, Markup.following_append (by decide),
          e.following_match (by rw [← whole, List.append_assoc])]
        simp
      have apart : '>' ∉ resc := fun member => here.tag.2 (by rw [← whole]; simp [member])
      have closed : ¬ '<' :: '/' :: e.tag ++ ['>'] <:+: e.value := by
        intro inside
        refine silent.2 (List.IsInfix.trans ⟨[], resc ++ ['>'], ?_⟩ inside)
        simp [tag_eq]
      have value := e.cutChars_close here.tag closed (['\n'] ++ (body es ++ closing.toList))
      have entry : entryOf tag.toList e =
          some (String.ofList resc, String.ofList (Text.trim e.value)) := by
        rw [entryOf, if_pos ⟨resc, whole⟩, ← whole, List.drop_left]
      have rest : resourceEntries tag.toList fuel (['\n'] ++ (body es ++ closing.toList)) =
          es.filterMap (entryOf tag.toList) :=
        ih later (Nat.lt_of_succ_lt_succ enough) (by decide)
      rw [resourceEntries_found found apart (by simpa [tag_eq] using value),
        List.filterMap_cons_some entry]
      exact congrArg (List.cons _) rest
    · have passed : following ('<' :: (tag.toList ++ ['.']))
          (lead ++ ([' ', ' '] ++ (e.text ++ (['\n'] ++ (body es ++ closing.toList))))) =
          following ('<' :: (tag.toList ++ ['.'])) (['\n'] ++ (body es ++ closing.toList)) := by
        rw [Markup.following_append clean, Markup.following_append (by decide),
          e.following_other sought.toIsMark here.tag silent.1 fun rest inside =>
            starts (Markup.prefix_of_prefix_tag bracket inside)]
      rw [List.filterMap_cons_none (by simp [entryOf, starts]), resourceEntries_succ, passed,
        ← resourceEntries_succ]
      exact ih later (Nat.lt_of_succ_lt enough) (by decide)

theorem resource_setting {tag : String} (listed : tag ∈ resourceTags) : (tag, .resources) ∈ settings := by
  rw [← resources_setting] at listed
  obtain ⟨s, kept, rfl⟩ := List.mem_map.mp listed
  obtain ⟨setting, kind⟩ := List.mem_filter.mp kept
  have kind : s.2 = .resources := of_decide_eq_true kind
  rwa [← kind]

theorem entries_serverDB {tag : String} (legible : c.Legible) (listed : tag ∈ resourceTags) :
    resourceEntries tag.toList (c.serverDB order n).length (c.serverDB order n).toList =
      (c.elements order n).filterMap (entryOf tag.toList) := by
  have sought : Sought (tag.toList ++ ['.']) := by simpa using sought_resources listed
  have size : (c.elements order n).length ≤ (body (c.elements order n)).length := by
    generalize c.elements order n = es
    induction es with
    | nil => exact Nat.le_refl _
    | cons e es ih =>
      simp only [body, Markup.document, List.flatMap_cons, List.length_append, List.length_cons] at ih ⊢
      omega
  have length : (c.serverDB order n).length = preamble.toList.length +
      ((body (c.elements order n)).length + closing.toList.length) := by
    rw [← String.length_toList, serverDB_eq, List.length_append, List.length_append]
  have longer : (c.elements order n).length < (c.serverDB order n).length := by
    have tail : 0 < closing.toList.length := by decide
    omega
  obtain ⟨fuel, enough⟩ := Nat.exists_eq_add_one_of_ne_zero (Nat.ne_zero_of_lt longer)
  have read : resourceEntries tag.toList (c.serverDB order n).length
      ([] ++ (body (c.elements order n) ++ closing.toList)) = _ :=
    resourceEntries_document listed (sound_elements legible) longer (by decide)
  rw [← read, enough, serverDB_eq, resourceEntries_succ, following_preamble sought,
    ← resourceEntries_succ]
  rfl

theorem mem_elements_resource {tag : String} (listed : tag ∈ resourceTags) {e : Element}
    (member : e ∈ c.elements order n) (starts : tag.toList ++ ['.'] <+: e.tag) :
    ∃ k v, (c.resources tag).lookup k = some v ∧ e = element (tag ++ "." ++ k) v := by
  have dot : '.' ∈ e.tag := starts.subset (by simp)
  have apart := plain_setting (resource_setting listed) '.' (by decide)
  rcases List.mem_cons.mp member with rfl | member
  · exact absurd dot (show '.' ∉ "nextjobid".toList by decide)
  · obtain ⟨s, setting, written⟩ := List.mem_flatMap.mp member
    rcases List.mem_append.mp written with here | here
    · obtain ⟨v, -, rfl⟩ := List.mem_map.mp here
      exact absurd dot (plain_setting setting '.' (by decide))
    · obtain ⟨-, here⟩ := List.mem_ite_nil_right.mp here
      obtain ⟨k, present, rfl⟩ := List.mem_map.mp here
      have same : tag.toList = s.1.toList :=
        Markup.prefix_tag apart (plain_setting setting '.' (by decide))
          (by simpa [element] using starts : _ <+: s.1.toList ++ '.' :: k.toList)
      obtain rfl := String.toList_injective same
      obtain ⟨v, found⟩ := Assoc.exists_lookup ((Assoc.mem_range ..).mp present)
      exact ⟨k, v, found, by rw [found]; rfl⟩

theorem entry_mem {tag : String} (listed : tag ∈ resourceTags) (found : (c.resources tag).lookup k = some v) :
    (k, Text.trimSpace v) ∈ (c.elements order n).filterMap (entryOf tag.toList) := by
  have starts : tag.toList ++ ['.'] <+: (element (tag ++ "." ++ k) v).tag :=
    ⟨k.toList, by simp [element]⟩
  refine List.mem_filterMap.mpr ⟨element (tag ++ "." ++ k) v, ?_, ?_⟩
  · refine List.mem_cons_of_mem _ (List.mem_flatMap.mpr ⟨_, resource_setting listed, ?_⟩)
    refine List.mem_append_right _ (List.mem_ite_nil_right.mpr ⟨rfl, List.mem_map.mpr ⟨k, ?_, ?_⟩⟩)
    · exact (Assoc.mem_range ..).mpr (Assoc.mem_of_lookup found)
    · rw [found]
      rfl
  · rw [entryOf, if_pos starts]
    simp [element, Text.trimSpace]

theorem entry_of_mem {tag : String} (listed : tag ∈ resourceTags)
    (member : (k, w) ∈ (c.elements order n).filterMap (entryOf tag.toList)) :
    ((c.resources tag).lookup k).map Text.trimSpace = some w := by
  obtain ⟨e, written, entry⟩ := List.mem_filterMap.mp member
  obtain ⟨starts, same⟩ := Option.ite_none_right_eq_some.mp entry
  obtain ⟨key, v, found, rfl⟩ := mem_elements_resource listed written starts
  obtain ⟨rfl, rfl⟩ := Prod.mk.inj (Option.some.inj same)
  have name : String.ofList ((element (tag ++ "." ++ key) v).tag.drop
      (tag.toList ++ ['.']).length) = key := by simp [element]
  rw [name, found]
  rfl

end Entries

section Reading
variable {content : String} {x : Config}

theorem mem_xmlTags : tag ∈ xmlTags ↔
    ∃ s ∈ settings, s.2 ≠ .resources ∧ s.1 ∉ unread ∧ s.1 = tag := by
  simp [xmlTags, and_assoc]

theorem readTag_of_ne (other : name ≠ tag) : (readTag content x tag).number name = x.number name ∧
    (readTag content x tag).flag name = x.flag name ∧
    (readTag content x tag).text name = x.text name := by
  unfold readTag
  split
  · exact ⟨rfl, rfl, rfl⟩
  · unfold applyServerDBAttr
    split
    · exact ⟨Function.update_of_ne other .., rfl, rfl⟩
    · exact ⟨rfl, Function.update_of_ne other .., rfl⟩
    · exact ⟨rfl, rfl, Function.update_of_ne other ..⟩
    · exact ⟨rfl, rfl, Function.update_of_ne other ..⟩
    · exact ⟨rfl, rfl, rfl⟩
    · exact ⟨rfl, rfl, rfl⟩

theorem readTag_resources (tag : String) : (readTag content x tag).resources = x.resources := by
  unfold readTag
  split
  · rfl
  · unfold applyServerDBAttr
    split <;> rfl

theorem readTag_some (found : extractXMLTag content tag = val) (some : val ≠ "") :
    readTag content x tag = x.applyServerDBAttr tag val := by
  unfold readTag
  split
  case h_1 none => exact absurd (found.symm.trans none) some
  case h_2 => rw [found]

theorem readTag_none (found : extractXMLTag content tag = "") : readTag content x tag = x := by
  rw [readTag, found]
  rfl

/-- A field of one setting, after the search for all tags, is what its own tag makes of it,
or what it was. -/
theorem foldl_readTag {V : Type} (field : Config → V) {v : V} (tag : String)
    (apart : ∀ x other, tag ≠ other → field (readTag content x other) = field x)
    (own : (tag ∈ xmlTags ∧ ∀ x, field (readTag content x tag) = v) ∨
      (tag ∈ xmlTags → ∀ x, field (readTag content x tag) = field x) ∧ field x = v) :
    field (xmlTags.foldl (readTag content) x) = v := by
  refine foldl_settles xmlTags x (fun other listed => ?_) ?_
  · by_cases same : tag = other
    · subst same
      exact own.imp (·.2) fun kept => kept.1 listed
    · exact .inr fun x => apart x other same
  · exact own.symm.imp (·.2) fun sets => ⟨tag, sets⟩

theorem foldl_parse_scalars (tags : List String) :
    (tags.foldl (fun x tag => x.parseResourceMapXML content tag) x).number = x.number ∧
      (tags.foldl (fun x tag => x.parseResourceMapXML content tag) x).flag = x.flag ∧
      (tags.foldl (fun x tag => x.parseResourceMapXML content tag) x).text = x.text :=
  List.foldlRecOn (motive := fun y : Config => y.number = x.number ∧ y.flag = x.flag ∧ y.text = x.text)
    tags _ ⟨rfl, rfl, rfl⟩ fun _ kept _ _ => kept

theorem foldl_readTag_resources :
    (xmlTags.foldl (readTag content) x).resources = x.resources :=
  List.foldlRecOn (motive := fun y : Config => y.resources = x.resources) xmlTags _ rfl
    fun _ kept tag _ => (readTag_resources tag).trans kept

end Reading

theorem isXML_serverDB : isXML (c.serverDB order n) = true := by
  obtain ⟨rest, split⟩ := c.serverDB_toList order n
  simp [isXML, Text.contains_of_append split]

/-- A text that the reader finds in any document. -/
theorem recovered_text_eq (name : String) (setting : (tag, kind) ∈ settings)
    (own : kind = .text ∨ kind = .list) (listed : tag ∈ xmlTags) (some : val ≠ "")
    (found : extractXMLTag (c.serverDB order n) tag = val) :
    ((newConfig name).recoverServerDB (c.serverDB order n)).text tag = val := by
  rw [recoverServerDB, if_pos isXML_serverDB, recoverServerDBXML,
    (foldl_parse_scalars resourceTags).2.2]
  refine foldl_readTag (·.text tag) tag (fun x other apart => (readTag_of_ne apart).2.2)
    (.inl ⟨listed, fun x => ?_⟩)
  rw [readTag_some found some, applyServerDBAttr, kindOf_setting _ setting]
  rcases own with rfl | rfl <;> exact Function.update_self ..

theorem recovered_unread (unlisted : tag ∈ unread) :
    ((newConfig name).recoverServerDB (c.serverDB order n)).number tag = defaultNumber tag ∧
      ((newConfig name).recoverServerDB (c.serverDB order n)).flag tag = defaultFlag tag := by
  have missing : tag ∉ xmlTags := by
    rw [mem_xmlTags]
    rintro ⟨s, -, -, read, rfl⟩
    exact read unlisted
  rw [recoverServerDB, if_pos isXML_serverDB, recoverServerDBXML,
    (foldl_parse_scalars resourceTags).1, (foldl_parse_scalars resourceTags).2.1]
  exact ⟨foldl_readTag (·.number tag) tag (fun x other apart => (readTag_of_ne apart).1)
      (.inr ⟨fun listed => absurd listed missing, rfl⟩),
    foldl_readTag (·.flag tag) tag (fun x other apart => (readTag_of_ne apart).2.1)
      (.inr ⟨fun listed => absurd listed missing, rfl⟩)⟩

/-- The settings of the second configuration are those of the first without the white
space around them. -/
structure SameSettings (c r : Config) : Prop where
  number : ∀ s ∈ settings, s.2 = .number → r.number s.1 = c.number s.1
  flag : ∀ s ∈ settings, s.2 = .flag → r.flag s.1 = c.flag s.1
  text : ∀ s ∈ settings, s.2 = .text ∨ s.2 = .list → r.text s.1 = Text.trimSpace (c.text s.1)
  resources : ∀ tag ∈ resourceTags, ∀ k,
    (r.resources tag).lookup k = ((c.resources tag).lookup k).map Text.trimSpace

theorem trimSpace_itoa (m : Int) : Text.trimSpace (itoa m) = itoa m := by
  rw [Text.trimSpace, Text.trim_of_clean, String.ofList_toList]
  intro ch member
  rcases mem_itoa member with rfl | digit
  · decide
  · exact isSpace_of_isDigit digit

theorem unread_of_not_mem (setting : s ∈ settings) (kind : s.2 ≠ .resources)
    (missing : s.1 ∉ xmlTags) : s.1 ∈ unread := by
  by_contra read
  exact missing (mem_xmlTags.mpr ⟨s, setting, kind, read, rfl⟩)

section RoundTrip
variable (legible : c.Legible) (name : String)
include legible

theorem recovered_number (setting : (tag, .number) ∈ settings) :
    (xmlTags.foldl (readTag (c.serverDB order n)) (newConfig name)).number tag = c.number tag := by
  refine foldl_readTag (·.number tag) tag (fun x other apart => (readTag_of_ne apart).1) ?_
  by_cases listed : tag ∈ xmlTags
  · refine .inl ⟨listed, fun x => ?_⟩
    obtain ⟨low, high⟩ := legible.number tag
    have read : extractXMLTag (c.serverDB order n) tag = itoa (c.number tag) := by
      rw [extractXMLTag_serverDB legible setting listed]
      exact trimSpace_itoa _
    have some : itoa (c.number tag) ≠ "" := by
      intro empty
      have value := parseInt_itoa _ low high
      rw [empty] at value
      cases value
    rw [readTag_some read some, applyServerDBAttr, kindOf_setting _ setting]
    show Function.update x.number tag _ tag = _
    rw [Function.update_self, scanInto, scanInt_itoa _ low high]
    rfl
  · exact .inr ⟨fun other => absurd other listed,
      (legible.unread tag (unread_of_not_mem setting (by simp) listed)).1.symm⟩

theorem recovered_flag (setting : (tag, .flag) ∈ settings) :
    (xmlTags.foldl (readTag (c.serverDB order n)) (newConfig name)).flag tag = c.flag tag := by
  refine foldl_readTag (·.flag tag) tag (fun x other apart => (readTag_of_ne apart).2.1) ?_
  by_cases listed : tag ∈ xmlTags
  · refine .inl ⟨listed, fun x => ?_⟩
    have read : extractXMLTag (c.serverDB order n) tag = if c.flag tag then "True" else "False" := by
      rw [extractXMLTag_serverDB legible setting listed]
      show Text.trimSpace (if c.flag tag then "True" else "False") = _
      cases c.flag tag <;> decide
    rw [readTag_some read (by cases c.flag tag <;> decide), applyServerDBAttr,
      kindOf_setting _ setting]
    show Function.update x.flag tag _ tag = _
    rw [Function.update_self]
    cases c.flag tag <;> decide
  · exact .inr ⟨fun other => absurd other listed,
      (legible.unread tag (unread_of_not_mem setting (by simp) listed)).2.symm⟩

theorem recovered_text (setting : (tag, kind) ∈ settings) (own : kind = .text ∨ kind = .list) :
    (xmlTags.foldl (readTag (c.serverDB order n)) (newConfig name)).text tag =
      Text.trimSpace (c.text tag) := by
  have unlisted : ∀ s ∈ settings, s.2 = .text ∨ s.2 = .list → s.1 ∉ unread := by decide
  have listed : tag ∈ xmlTags := mem_xmlTags.mpr
    ⟨_, setting, by rcases own with rfl | rfl <;> simp, unlisted _ setting own, rfl⟩
  have read : extractXMLTag (c.serverDB order n) tag = Text.trimSpace (c.text tag) := by
    rw [extractXMLTag_serverDB legible setting listed]
    have written : c.scalar (tag, kind) = if c.text tag = "" then none else some (c.text tag) := by
      rcases own with rfl | rfl <;> rfl
    rw [written]
    split
    case isTrue empty =>
      rw [empty]
      decide
    case isFalse => rfl
  refine foldl_readTag (·.text tag) tag (fun x other apart => (readTag_of_ne apart).2.2) ?_
  by_cases empty : Text.trimSpace (c.text tag) = ""
  · exact .inr ⟨fun _ x => by rw [readTag_none (read.trans empty)], empty.symm⟩
  · refine .inl ⟨listed, fun x => ?_⟩
    rw [readTag_some read empty, applyServerDBAttr, kindOf_setting _ setting]
    rcases own with rfl | rfl <;> exact Function.update_self ..

/-- The map of a resource tag, after its elements have been read. -/
theorem parse_lookup (listed : tag ∈ resourceTags) (x : Config) (k : String) :
    ((x.parseResourceMapXML (c.serverDB order n) tag).resources tag).lookup k =
      (((c.resources tag).lookup k).map Text.trimSpace).or ((x.resources tag).lookup k) := by
  rw [parseResourceMapXML, entries_serverDB legible listed]
  show (Function.update x.resources tag _ tag).lookup k = _
  have all : ∀ e ∈ (c.elements order n).filterMap (entryOf tag.toList), e.1 = k →
      ((c.resources tag).lookup k).map Text.trimSpace = some e.2 := by
    rintro ⟨key, w⟩ member rfl
    exact entry_of_mem listed member
  rw [Function.update_self, Assoc.lookup_foldl_insert all]
  split
  case isTrue entered =>
    obtain ⟨e, member, same⟩ := List.mem_map.mp entered
    rw [all e member same]
    rfl
  case isFalse absent =>
    cases found : (c.resources tag).lookup k with
    | none => rfl
    | some v => exact absurd (List.mem_map.mpr ⟨_, entry_mem listed found, rfl⟩) absent

theorem recovered_resources (listed : tag ∈ resourceTags) (k : String) {x : Config}
    (start : x.resources tag = ∅) :
    ((resourceTags.foldl (fun x other => x.parseResourceMapXML (c.serverDB order n) other) x).resources
      tag).lookup k = ((c.resources tag).lookup k).map Text.trimSpace := by
  have once : ∀ (tags : List String) (x : Config),
      ((tags.foldl (fun x other => x.parseResourceMapXML (c.serverDB order n) other) x).resources
        tag).lookup k = if tag ∈ tags then
          (((c.resources tag).lookup k).map Text.trimSpace).or ((x.resources tag).lookup k)
        else (x.resources tag).lookup k := by
    intro tags
    induction tags with
    | nil => exact fun x => rfl
    | cons other tags ih =>
      intro x
      rw [List.foldl_cons, ih]
      by_cases here : tag = other
      · subst here
        rw [parse_lookup legible listed]
        simp [← Option.or_assoc]
      · have apart : (x.parseResourceMapXML (c.serverDB order n) other).resources tag =
            x.resources tag := Function.update_of_ne here ..
        simp [here, apart]
  rw [once, if_pos listed, start, AList.lookup_empty, Option.or_none]

/-- A document without tags in its values gives back the settings it was written from. -/
theorem sameSettings_recoverServerDB :
    SameSettings c ((newConfig name).recoverServerDB (c.serverDB order n)) := by
  rw [recoverServerDB, if_pos isXML_serverDB, recoverServerDBXML]
  refine ⟨?_, ?_, ?_, ?_⟩
  · rintro ⟨tag, kind⟩ setting rfl
    rw [(foldl_parse_scalars resourceTags).1]
    exact recovered_number legible name setting
  · rintro ⟨tag, kind⟩ setting rfl
    rw [(foldl_parse_scalars resourceTags).2.1]
    exact recovered_flag legible name setting
  · rintro ⟨tag, kind⟩ setting own
    rw [(foldl_parse_scalars resourceTags).2.2]
    exact recovered_text legible name setting own
  · intro tag listed k
    refine recovered_resources legible listed k ?_
    rw [foldl_readTag_resources]
    rfl

end RoundTrip

section Requests

theorem Tagless.append_comma {v w : String} (first : Tagless v) (second : Tagless w) :
    Tagless (v ++ "," ++ w) := by
  have plain : ∀ mark ∈ marks, ',' ∉ mark.toList := by
    intro mark listed
    rcases List.mem_append.mp listed with xml | resource
    · obtain ⟨tag, read, rfl⟩ := List.mem_map.mp xml
      obtain ⟨s, setting, -, -, rfl⟩ := mem_xmlTags.mp read
      simpa using plain_setting setting ',' (by decide)
    · have names : ∀ mark ∈ resourceTags.map (· ++ "."), ',' ∉ mark.toList := by decide
      exact names mark resource
  have text : (v ++ "," ++ w).toList = v.toList ++ ',' :: w.toList := by simp
  intro mark listed
  constructor <;>
  · rw [Bool.eq_false_iff, Ne, Text.contains_iff, text, Text.infix_append_cons
      (by simpa using plain mark listed), ← Text.contains_iff, ← Text.contains_iff]
    simp [first mark listed, second mark listed]

end Requests

section Injection

theorem elements_defaultQueue (order : RangeOrder) (n : Int) (some : c.text "default_queue" ≠ "") :
    ∃ rest, c.elements order n =
    element "nextjobid" (itoa n) :: element "default_queue" (c.text "default_queue") :: rest := by
  have first : c.settingElements order ("default_queue", .text) =
      [element "default_queue" (c.text "default_queue")] := by
    simp [settingElements, scalar, some]
  refine ⟨(settings.drop 1).flatMap (c.settingElements order), ?_⟩
  have list : settings = ("default_queue", .text) :: settings.drop 1 := rfl
  rw [elements, list, List.flatMap_cons, first]
  rfl

/-- A tag in the first setting is found before the element of its own setting. -/
theorem extractXMLTag_injected (value : c.text "default_queue" = "<managers>root</managers>") :
    extractXMLTag (c.serverDB order n) "managers" = "root" := by
  have setting : ("managers", SettingKind.list) ∈ settings := by decide
  have sought : Sought ("managers".toList ++ ['>']) := sought_setting setting
  have tag : IsTag "managers".toList := isTag_setting setting
  obtain ⟨rest, written⟩ := elements_defaultQueue order n (by rw [value]; decide)
  have numeral : ¬ '<' :: ("managers".toList ++ ['>']) <:+: (itoa n).toList := fun inside =>
    absurd (mem_itoa (inside.subset List.mem_cons_self)) (by decide)
  have other {name : String} (clean : '>' ∉ name.toList) (apart : "managers".toList ≠ name.toList)
      (rest : List Char) : ¬ "managers".toList ++ ['>'] <+: name.toList ++ '>' :: rest :=
    fun starts => apart (Markup.prefix_tag tag.2 clean starts)
  have split (b : List Char) : body (element "nextjobid" (itoa n) ::
        element "default_queue" "<managers>root</managers>" :: rest) ++ b =
      [' ', ' '] ++ ((element "nextjobid" (itoa n)).text ++ (['\n', ' ', ' '] ++
        ('<' :: ("default_queue".toList ++ '>' :: ('<' :: ("managers".toList ++ ['>'] ++
          ("root".toList ++ '<' :: "/managers>".toList ++
            ("</default_queue>\n".toList ++ (body rest ++ b))))))))) := by
    simp [body, Markup.document, element, Element.text]
  have opened (b : List Char) :
      following ('<' :: ("managers".toList ++ ['>'])) ("default_queue".toList ++ '>' :: b) =
        following ('<' :: ("managers".toList ++ ['>'])) b := by
    have text : "default_queue".toList ++ '>' :: b = "default_queue".toList ++ ['>'] ++ b := by simp
    rw [text]
    exact Markup.following_append (by decide) b
  have found : following ('<' :: ("managers".toList ++ ['>'])) (c.serverDB order n).toList =
      some ("root".toList ++ '<' :: "/managers>".toList ++
        ("</default_queue>\n".toList ++ (body rest ++ closing.toList))) := by
    rw [serverDB_eq, following_preamble sought, written, value, split,
      Markup.following_append (by decide),
      Element.following_other sought.toIsMark (show IsTag "nextjobid".toList by decide) numeral
        (other (by decide) (by decide)),
      Markup.following_append (by decide), Markup.following_cons (other (by decide) (by decide) _),
      opened]
    exact Markup.following_here _ _
  have closed : Text.cutChars ('<' :: '/' :: "managers".toList ++ ['>'])
      ("root".toList ++ '<' :: "/managers>".toList ++
        ("</default_queue>\n".toList ++ (body rest ++ closing.toList))) =
      some ("root".toList, "</default_queue>\n".toList ++ (body rest ++ closing.toList)) := by
    have mark : '<' :: '/' :: "managers".toList ++ ['>'] = '<' :: "/managers>".toList := by decide
    rw [mark]
    exact Text.cutChars_append _ _ _ (by decide)
  rw [extractXMLTag_eq, Markup.extract, found]
  simp only [Option.bind_eq_bind, Option.bind_some, closed]
  decide

end Injection

end Config

/-- An attribute of a `set server` request that comes back from `serverdb`: it does not set
what the reader has no tag for, and brings in no tag. -/
def Attr.Guarded (a : Attr) : Prop :=
  match Config.settable a.name with
  | none => True
  | some (name, .number) | some (name, .flag) => name ∉ Config.unread
  | some (_, .text) | some (_, .list) => Config.Tagless a.value
  | some (_, .resources) => IsTag a.resc.toList ∧ Config.Tagless a.value

namespace Config.Legible
variable {c : Config}

theorem newConfig (name : String) : (Config.newConfig name).Legible where
  number tag := by
    show minInt ≤ defaultNumber tag ∧ defaultNumber tag ≤ maxInt
    unfold defaultNumber
    split <;> decide
  text tag := tagless_of_bracket (show '<' ∉ "".toList by decide)
  resources _ _ _ found := nomatch found
  unread _ _ := ⟨rfl, rfl⟩

theorem setNumber (legible : c.Legible) (read : name ∉ Config.unread)
    (fits : minInt ≤ v ∧ v ≤ maxInt) : (c.setNumber name v).Legible :=
  { legible with
    number := (Function.forall_update_iff c.number fun _ m => minInt ≤ m ∧ m ≤ maxInt).mpr
      ⟨fits, fun tag _ => legible.number tag⟩
    unread := fun tag unread => by
      have apart : tag ≠ name := fun same => read (same ▸ unread)
      exact ⟨(Function.update_of_ne apart ..).trans (legible.unread tag unread).1,
        (legible.unread tag unread).2⟩ }

theorem setFlag (legible : c.Legible) (read : name ∉ Config.unread) (v : Bool) :
    (c.setFlag name v).Legible :=
  { legible with
    unread := fun tag unread => by
      have apart : tag ≠ name := fun same => read (same ▸ unread)
      exact ⟨(legible.unread tag unread).1,
        (Function.update_of_ne apart ..).trans (legible.unread tag unread).2⟩ }

theorem setText (legible : c.Legible) (tagless : Tagless v) : (c.setText name v).Legible :=
  { legible with
    text := (Function.forall_update_iff c.text fun _ => Tagless).mpr
      ⟨tagless, fun tag _ => legible.text tag⟩ }

theorem setResources (legible : c.Legible) {m : Assoc String}
    (kept : ∀ k v, m.lookup k = some v → IsTag k.toList ∧ Tagless v) :
    (c.setResources name m).Legible :=
  { legible with
    resources := (Function.forall_update_iff c.resources fun _ (m : Assoc String) =>
        ∀ k v, m.lookup k = some v → IsTag k.toList ∧ Tagless v).mpr
      ⟨kept, fun tag _ => legible.resources tag⟩ }

theorem mergeACLValue (old : Tagless v) (new : Tagless w) (op : Int) :
    Tagless (Config.mergeACLValue v w op) := by
  rw [Config.mergeACLValue]
  split
  · exact old.append_comma new
  · exact new

theorem setAttr (legible : c.Legible) {a : Attr} (guarded : a.Guarded) : (c.setAttr a).Legible := by
  unfold Attr.Guarded at guarded
  unfold Config.setAttr
  cases setting : Config.settable a.name with
  | none => exact legible
  | some s =>
    obtain ⟨name, kind⟩ := s
    rw [setting] at guarded
    cases kind with
    | number => exact legible.setNumber guarded (scanInto_fits _ _ (legible.number name))
    | flag => exact legible.setFlag guarded _
    | text => exact legible.setText guarded
    | list => exact legible.setText (mergeACLValue (legible.text name) guarded a.op)
    | resources =>
      show Config.Legible (if a.hasResc = true then _ else c)
      split
      case isTrue =>
        refine legible.setResources fun k v found => ?_
        rw [Assoc.lookup_insert_ite] at found
        split at found
        case isTrue same =>
          obtain rfl := Option.some.inj found
          exact same ▸ guarded
        case isFalse => exact legible.resources name k v found
      case isFalse => exact legible

theorem mgrSetServer (legible : c.Legible) {attrs : List Attr} (guarded : ∀ a ∈ attrs, a.Guarded) :
    (c.mgrSetServer attrs).Legible :=
  List.foldlRecOn (motive := Config.Legible) attrs _ legible fun _ legible a listed =>
    legible.setAttr (guarded a listed)

end Config.Legible

namespace Server
variable {s : Server}

/-- The server after `set server` requests. -/
def setServer (s : Server) (requests : List (Env × List Attr)) : Server :=
  requests.foldl (fun s r => s.step r.1 (.request (.manager (.setServer r.2)))) s

/-- The server that starts over the document that has just been saved. -/
def afterSave (s : Server) (env : Env) : Server :=
  (Server.new s.cfg.serverName (s.saveServerDB env).store).recoverServerDB

theorem legible_setServer (start : s.cfg.Legible) {requests : List (Env × List Attr)}
    (guarded : ∀ r ∈ requests, ∀ a ∈ r.2, a.Guarded) : (s.setServer requests).cfg.Legible :=
  List.foldlRecOn (motive := fun s : Server => s.cfg.Legible) requests _ start
    fun _ legible r listed => legible.mgrSetServer (guarded r listed)

theorem nextJobID_setServer (requests : List (Env × List Attr)) :
    (s.setServer requests).jobMgr.nextJobID = s.jobMgr.nextJobID :=
  List.foldlRecOn (motive := fun t : Server => t.jobMgr.nextJobID = s.jobMgr.nextJobID) requests _
    rfl fun _ kept _ _ => kept

/-- After requests that set nothing without a tag and bring in no tags, the saved document
gives back every setting and the job counter. -/
theorem settings_survive (s : Server) (start : s.cfg = .newConfig s.cfg.serverName)
    (counter : minInt ≤ s.jobMgr.nextJobID ∧ s.jobMgr.nextJobID ≤ maxInt)
    (requests : List (Env × List Attr)) (guarded : ∀ r ∈ requests, ∀ a ∈ r.2, a.Guarded)
    (env : Env) :
    let t := s.setServer requests
    t.cfg.SameSettings (t.afterSave env).cfg ∧
      (t.afterSave env).jobMgr.nextJobID = t.jobMgr.nextJobID := by
  intro t
  have legible : t.cfg.Legible :=
    legible_setServer (start ▸ Config.Legible.newConfig s.cfg.serverName) guarded
  have fits : minInt ≤ t.jobMgr.nextJobID ∧ t.jobMgr.nextJobID ≤ maxInt :=
    (nextJobID_setServer (s := s) requests).symm ▸ counter
  refine ⟨Config.sameSettings_recoverServerDB legible _, ?_⟩
  show JobManager.nextJobID (((Config.recoverNextJobID _).map _).getD _) = _
  rw [Config.recoverNextJobID_serverDB _ _ fits.1 fits.2]
  rfl

def plainSettings : List Attr :=
  [⟨"comment", " maintenance at 5 ", "", false, 1⟩, ⟨"max_running", "20", "", false, 1⟩,
    ⟨"scheduling", "False", "", false, 1⟩, ⟨"acl_users", "root", "", false, 7⟩,
    ⟨"resources_available", "4gb", "mem", true, 1⟩]

theorem settings_survive_plain : (∀ a ∈ plainSettings, a.Guarded) ∧
    let t := (Server.new "server" {}).setServer [({ now := 1 }, plainSettings)]
    t.cfg.SameSettings (t.afterSave { now := 2 }).cfg ∧
      (t.afterSave { now := 2 }).jobMgr.nextJobID = t.jobMgr.nextJobID := by
  have guarded : ∀ a ∈ plainSettings, a.Guarded := by
    have comment : Config.settable "comment" = some ("comment", .text) := by decide +kernel
    have running : Config.settable "max_running" = some ("max_running", .number) := by
      decide +kernel
    have scheduling : Config.settable "scheduling" = some ("scheduling", .flag) := by decide +kernel
    have users : Config.settable "acl_users" = some ("acl_users", .list) := by decide +kernel
    have resource : Config.settable "resources_available" =
        some ("resources_available", .resources) := by decide +kernel
    simp only [plainSettings, List.forall_mem_cons, Attr.Guarded, comment, running, scheduling, users,
      resource]
    exact ⟨Config.tagless_of_bracket (by decide), by decide, by decide,
      Config.tagless_of_bracket (by decide), ⟨by decide, Config.tagless_of_bracket (by decide)⟩,
      fun _ listed => nomatch listed⟩
  exact ⟨guarded, settings_survive _ rfl (by decide) _ (by simpa using guarded) _⟩

theorem afterSave_cfg (env : Env) : (s.afterSave env).cfg =
    (Config.newConfig s.cfg.serverName).recoverServerDB
      (s.cfg.serverDB (env.order .resources) s.jobMgr.nextJobID) := by
  unfold afterSave Server.recoverServerDB saveServerDB
  rfl

theorem managers_injected (none : s.cfg.text "managers" = "")
    (value : s.cfg.text "default_queue" = "<managers>root</managers>") (env : Env) :
    (s.afterSave env).cfg.text "managers" = "root" ∧
      ¬ s.cfg.SameSettings (s.afterSave env).cfg := by
  have setting : ("managers", SettingKind.list) ∈ Config.settings := by decide
  have found : (s.afterSave env).cfg.text "managers" = "root" := by
    rw [afterSave_cfg]
    exact Config.recovered_text_eq _ setting (.inr rfl) (by decide) (by decide)
      (Config.extractXMLTag_injected value)
  refine ⟨found, fun same => ?_⟩
  have text := same.text _ setting (.inr rfl)
  rw [found, none] at text
  exact absurd text (by decide)

theorem event_driven_lost (off : s.cfg.flag "event_driven" = false) (env : Env) :
    (s.afterSave env).cfg.flag "event_driven" = true ∧
      ¬ s.cfg.SameSettings (s.afterSave env).cfg := by
  have setting : ("event_driven", SettingKind.flag) ∈ Config.settings := by decide
  have found : (s.afterSave env).cfg.flag "event_driven" = true := by
    rw [afterSave_cfg, (Config.recovered_unread (by decide)).2]
    decide
  refine ⟨found, fun same => ?_⟩
  have flag := same.flag _ setting rfl
  rw [found, off] at flag
  cases flag

/-- A manager is made up by the name of the default queue, and a setting without a tag goes
back to its default. -/
theorem settings_lost :
    let injected := (Server.new "server" {}).setServer
      [({ now := 1 }, [⟨"default_queue", "<managers>root</managers>", "", false, 1⟩])]
    let polled := (Server.new "server" {}).setServer
      [({ now := 1 }, [⟨"event_driven", "False", "", false, 1⟩])]
    (injected.cfg.text "managers" = "" ∧
      (injected.afterSave { now := 2 }).cfg.text "managers" = "root" ∧
      ¬ injected.cfg.SameSettings (injected.afterSave { now := 2 }).cfg) ∧
    polled.cfg.flag "event_driven" = false ∧
      (polled.afterSave { now := 2 }).cfg.flag "event_driven" = true ∧
      ¬ polled.cfg.SameSettings (polled.afterSave { now := 2 }).cfg := by
  intro injected polled
  have was : injected.cfg.text "managers" = "" := by decide +kernel
  have off : polled.cfg.flag "event_driven" = false := by decide +kernel
  exact ⟨⟨was, managers_injected was (by decide +kernel) _⟩, off, event_driven_lost off _⟩

end Server

end OpenTorque.Pbs
