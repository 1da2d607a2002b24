import Mathlib.Data.List.DropRight
import Mathlib.Data.List.TakeDrop

/-! Text in the manner of Go's `strings` package. Separators are single ASCII
characters. Texts are compared up to letter case as Unicode folds it; a text is put into
lower case on the ASCII letters only. -/
namespace OpenTorque.Text

-- What holds of the characters of a text is decided on the text, not on all characters.
instance (priority := 2000) decidableForallMem (p : α → Prop) [DecidablePred p] (l : List α) :
    Decidable (∀ x ∈ l, p x) :=
  List.decidableBAll p l

instance (priority := 2000) decidableExistsMem (p : α → Prop) [DecidablePred p] (l : List α) :
    Decidable (∃ x ∈ l, p x) :=
  List.decidableBEx p l

instance (priority := 2000) decidableForallMemOption (p : α → Prop) [DecidablePred p]
    (o : Option α) : Decidable (∀ x ∈ o, p x) :=
  Option.decidableForallMem o

/-- White space as `unicode.IsSpace` has it. -/
def isSpace (c : Char) : Bool :=
  ('\t' ≤ c && c ≤ '\r') || ('\u2000' ≤ c && c ≤ '\u200a') ||
    c ∈ [' ', '\u0085', '\u00a0', '\u1680', '\u2028', '\u2029', '\u202f', '\u205f', '\u3000']

def trim (cs : List Char) : List Char := (cs.dropWhile isSpace).rdropWhile isSpace

/-- `strings.TrimSpace` -/
def trimSpace (s : String) : String := .ofList (trim s.toList)

/-- `strings.Split` at a one-character separator; the text `""` has one empty part. -/
def split (sep : Char) (s : String) : List String := (s.toList.splitOn sep).map .ofList

/-- The part before the first separator, the whole text if there is none. -/
def before (sep : Char) (s : String) : String := .ofList (s.toList.takeWhile (· ≠ sep))

/-- `strings.Join` -/
def join (sep : String) (parts : List String) : String := sep.intercalate parts

/-- `strings.Fields` -/
def fields (s : String) : List String :=
  ((s.toList.splitOnP isSpace).filter (· ≠ [])).map .ofList

/-- The text around the first occurrence of a character, as `strings.Index` finds it. -/
def cut (sep : Char) (s : String) : Option (String × String) :=
  match s.toList.span (· ≠ sep) with
  | (_, []) => none
  | (head, _ :: tail) => some (.ofList head, .ofList tail)

/-- `cut` for a text whose first part is not empty: `strings.Index(s, sep) > 0`. -/
def cutKey (sep : Char) (s : String) : Option (String × String) :=
  (cut sep s).filter (·.1 ≠ "")

/-- The text around the first occurrence of a mark. -/
def cutChars (mark : List Char) : List Char → Option (List Char × List Char)
  | [] => if mark.isEmpty then some ([], []) else none
  | c :: cs =>
    if mark.isPrefixOf (c :: cs) then some ([], (c :: cs).drop mark.length)
    else (cutChars mark cs).map fun (head, tail) => (c :: head, tail)

def cutText (mark s : String) : Option (String × String) :=
  (cutChars mark.toList s.toList).map fun (head, tail) => (.ofList head, .ofList tail)

/-- `strings.Contains` -/
def contains (s mark : String) : Bool := (cutText mark s).isSome

/-- `strings.HasPrefix` together with what follows the prefix. -/
def afterPrefix (mark s : String) : Option String :=
  if mark.toList.isPrefixOf s.toList then some (.ofList (s.toList.drop mark.length)) else none

/-- `strings.HasSuffix` together with what stands before the suffix. -/
def beforeSuffix (mark s : String) : Option String :=
  if mark.toList.isSuffixOf s.toList then some (.ofList (s.toList.take (s.length - mark.length)))
  else none

/-- `strings.ToLower` on the ASCII letters. -/
def toLower (s : String) : String := .ofList (s.toList.map Char.toLower)

/-- The ranges of Unicode beyond ASCII in which every other character, from the first one
on, folds to the next one. -/
def alternating : List (Nat × Nat) :=
  [(256, 302), (306, 310), (313, 327), (330, 374), (377, 381), (386, 388), (391, 391),
  (395, 395), (401, 401), (408, 408), (416, 420), (423, 423), (428, 428), (431, 431), (435, 437),
  (440, 440), (444, 444), (453, 453), (456, 456), (459, 475), (478, 494), (498, 500), (504, 542),
  (546, 562), (571, 571), (577, 577), (582, 590), (880, 882), (886, 886), (962, 962),
  (984, 1006), (1015, 1015), (1018, 1018), (1120, 1152), (1162, 1214), (1217, 1229),
  (1232, 1326), (7680, 7828), (7840, 7934), (8579, 8579), (11360, 11360), (11367, 11371),
  (11378, 11378), (11381, 11381), (11392, 11490), (11499, 11501), (11506, 11506), (42560, 42604),
  (42624, 42650), (42786, 42798), (42802, 42862), (42873, 42875), (42878, 42886), (42891, 42891),
  (42896, 42898), (42902, 42920), (42932, 42946), (42951, 42953), (42960, 42960), (42966, 42968),
  (42997, 42997)]

/-- The other ranges of Unicode's simple case folding beyond ASCII, with the distance from a
character to what it folds to. -/
def shifted : List (Nat × Nat × Int) :=
  [(181, 181, 775), (192, 214, 32), (216, 222, 32), (376, 376, -121), (383, 383, -268),
  (385, 385, 210), (390, 390, 206), (393, 394, 205), (398, 398, 79), (399, 399, 202),
  (400, 400, 203), (403, 403, 205), (404, 404, 207), (406, 406, 211), (407, 407, 209),
  (412, 412, 211), (413, 413, 213), (415, 415, 214), (422, 422, 218), (425, 425, 218),
  (430, 430, 218), (433, 434, 217), (439, 439, 219), (452, 452, 2), (455, 455, 2), (458, 458, 2),
  (497, 497, 2), (502, 502, -97), (503, 503, -56), (544, 544, -130), (570, 570, 10795),
  (573, 573, -163), (574, 574, 10792), (579, 579, -195), (580, 580, 69), (581, 581, 71),
  (837, 837, 116), (895, 895, 116), (902, 902, 38), (904, 906, 37), (908, 908, 64),
  (910, 911, 63), (913, 929, 32), (931, 939, 32), (975, 975, 8), (976, 976, -30),
  (977, 977, -25), (981, 981, -15), (982, 982, -22), (1008, 1008, -54), (1009, 1009, -48),
  (1012, 1012, -60), (1013, 1013, -64), (1017, 1017, -7), (1021, 1023, -130), (1024, 1039, 80),
  (1040, 1071, 32), (1216, 1216, 15), (1329, 1366, 48), (4256, 4293, 7264), (4295, 4295, 7264),
  (4301, 4301, 7264), (5112, 5117, -8), (7296, 7296, -6222), (7297, 7297, -6221),
  (7298, 7298, -6212), (7299, 7300, -6210), (7301, 7301, -6211), (7302, 7302, -6204),
  (7303, 7303, -6180), (7304, 7304, 35267), (7312, 7354, -3008), (7357, 7359, -3008),
  (7835, 7835, -58), (7838, 7838, -7615), (7944, 7951, -8), (7960, 7965, -8), (7976, 7983, -8),
  (7992, 7999, -8), (8008, 8013, -8), (8025, 8025, -8), (8027, 8027, -8), (8029, 8029, -8),
  (8031, 8031, -8), (8040, 8047, -8), (8072, 8079, -8), (8088, 8095, -8), (8104, 8111, -8),
  (8120, 8121, -8), (8122, 8123, -74), (8124, 8124, -9), (8126, 8126, -7173), (8136, 8139, -86),
  (8140, 8140, -9), (8152, 8153, -8), (8154, 8155, -100), (8168, 8169, -8), (8170, 8171, -112),
  (8172, 8172, -7), (8184, 8185, -128), (8186, 8187, -126), (8188, 8188, -9),
  (8486, 8486, -7517), (8490, 8490, -8383), (8491, 8491, -8262), (8498, 8498, 28),
  (8544, 8559, 16), (9398, 9423, 26), (11264, 11311, 48), (11362, 11362, -10743),
  (11363, 11363, -3814), (11364, 11364, -10727), (11373, 11373, -10780), (11374, 11374, -10749),
  (11375, 11375, -10783), (11376, 11376, -10782), (11390, 11391, -10815), (42877, 42877, -35332),
  (42893, 42893, -42280), (42922, 42922, -42308), (42923, 42923, -42319), (42924, 42924, -42315),
  (42925, 42925, -42305), (42926, 42926, -42308), (42928, 42928, -42258), (42929, 42929, -42282),
  (42930, 42930, -42261), (42931, 42931, 928), (42948, 42948, -48), (42949, 42949, -42307),
  (42950, 42950, -35384), (43888, 43967, -38864), (65313, 65338, 32), (66560, 66599, 40),
  (66736, 66771, 40), (66928, 66938, 39), (66940, 66954, 39), (66956, 66962, 39),
  (66964, 66965, 39), (68736, 68786, 64), (71840, 71871, 32), (93760, 93791, 32),
  (125184, 125217, 34)]

/-- How far a character beyond ASCII is from what it folds to. -/
def foldShift (n : Nat) : Int :=
  if alternating.any fun r => r.1 ≤ n && n ≤ r.2 && (n - r.1) % 2 == 0 then 1
  else ((shifted.find? fun r => r.1 ≤ n && n ≤ r.2.1).map (·.2.2)).getD 0

/-- What a character folds to. Characters fold to the same one exactly if they are in one
orbit of `unicode.SimpleFold`. -/
def simpleFold (c : Char) : Nat :=
  if c.toNat < 128 then c.toLower.toNat else (c.toNat + foldShift c.toNat).toNat

/-- `strings.EqualFold` -/
def equalFold (s t : String) : Bool := s.toList.map simpleFold = t.toList.map simpleFold

example : equalFold "Ö1" "ö1" = true := by decide +kernel

/-- The stack of path elements `filepath.Clean` keeps, the last one first. -/
def cleanElement (rooted : Bool) (kept : List String) (element : String) : List String :=
  match element, kept with
  | "", _ | ".", _ => kept
  | "..", [] => if rooted then [] else [".."]
  | "..", ".." :: _ => ".." :: kept
  | "..", _ :: rest => rest
  | _, _ => element :: kept

/-- `filepath.Join` of two elements, the first of them not empty. -/
def joinPath (dir file : String) : String :=
  let path := dir ++ "/" ++ file
  let rooted := path.toList.head? = some '/'
  let cleaned := join "/" ((split '/' path).foldl (cleanElement rooted) []).reverse
  if rooted then "/" ++ cleaned else if cleaned = "" then "." else cleaned

section Lemmas
variable {s : String} {sep : Char}

/-- A text that does not start with `head` is not `head` with something after it. -/
theorem append_ne {head word : String} (other : head.toList.isPrefixOf word.toList = false)
    (tail : String) : head ++ tail ≠ word := by
  rintro rfl
  have starts : head.toList <+: (head ++ tail).toList := by simp
  rw [List.isPrefixOf_iff_prefix.mpr starts] at other
  cases other

@[simp] theorem afterPrefix_append (head tail : String) :
    afterPrefix head (head ++ tail) = some tail := by
  have starts : head.toList.isPrefixOf (head ++ tail).toList = true :=
    List.isPrefixOf_iff_prefix.mpr (by simp)
  rw [afterPrefix, if_pos starts, String.toList_append, ← String.length_toList, List.drop_left]
  exact congrArg some (String.ofList_toList)

theorem afterPrefix_eq_some {mark tail : String} (found : afterPrefix mark s = some tail) :
    s = mark ++ tail := by
  rw [afterPrefix] at found
  split at found
  case isTrue starts =>
    obtain ⟨rest, whole⟩ := List.isPrefixOf_iff_prefix.mp starts
    obtain rfl := Option.some.inj found
    refine String.toList_injective ?_
    rw [String.toList_append, ← whole, ← String.length_toList, List.drop_left, String.toList_ofList]
  case isFalse => cases found

/-- Texts that start with different letters have no prefix in common. -/
theorem afterPrefix_eq_none {mark : String} (start : s.toList.head? = some c)
    (wanted : mark.toList.head? = some d) (other : c ≠ d) : afterPrefix mark s = none := by
  cases found : afterPrefix mark s with
  | none => rfl
  | some tail =>
    rw [afterPrefix_eq_some found, String.toList_append, List.head?_append, wanted] at start
    exact absurd (Option.some.inj start).symm other

theorem cut_eq_some (found : cut sep s = some (head, tail)) :
    s.toList = head.toList ++ sep :: tail.toList ∧ sep ∉ head.toList := by
  unfold cut at found
  split at found
  case h_1 => simp at found
  case h_2 before mark after parts =>
    rw [List.span_eq_takeWhile_dropWhile] at parts
    obtain ⟨taken, dropped⟩ := Prod.mk.inj parts
    have isMark : mark = sep := by
      have stops := List.head?_dropWhile_not (fun c => decide (c ≠ sep)) s.toList
      rw [dropped] at stops
      simpa using stops
    cases found
    subst isMark
    refine ⟨?_, ?_⟩
    · rw [String.toList_ofList, String.toList_ofList, ← taken, ← dropped]
      exact List.takeWhile_append_dropWhile.symm
    · rw [String.toList_ofList, ← taken]
      intro member
      simpa using List.mem_takeWhile_imp member

theorem not_mem_of_cut_eq_none (missing : cut sep s = none) : sep ∉ s.toList := by
  unfold cut at missing
  split at missing
  case h_2 => simp at missing
  case h_1 before parts =>
    rw [List.span_eq_takeWhile_dropWhile] at parts
    have none_dropped := List.dropWhile_eq_nil_iff.mp (Prod.mk.inj parts).2
    intro member
    simpa using none_dropped sep member

theorem cutChars_append (head tail mark : List Char) (clean : c ∉ head) :
    cutChars (c :: mark) (head ++ c :: mark ++ tail) = some (head, tail) := by
  induction head with
  | nil => simp [cutChars]
  | cons d head ih =>
    have differs : d ≠ c := fun same => clean (by simp [same])
    have rest := ih fun member => clean (by simp [member])
    simp only [List.cons_append, List.append_assoc] at rest ⊢
    simp [cutChars, List.isPrefixOf, differs.symm, rest]

theorem isSome_cutChars_append (head tail mark : List Char) :
    (cutChars mark (head ++ mark ++ tail)).isSome := by
  induction head with
  | nil =>
    cases h : mark ++ tail with
    | nil => simp_all [cutChars]
    | cons c cs =>
      have here : mark.isPrefixOf (c :: cs) := by simp [← h]
      simp [h, cutChars, here]
  | cons d head ih =>
    simp only [List.cons_append, cutChars]
    split
    · rfl
    · simpa using ih

theorem contains_of_append (split : s.toList = head ++ mark.toList ++ tail) :
    contains s mark := by
  simpa [contains, cutText, split] using isSome_cutChars_append head tail mark.toList

theorem trim_of_clean {cs : List Char} (clean : ∀ c ∈ cs, isSpace c = false) : trim cs = cs := by
  have left : cs.dropWhile isSpace = cs := by
    cases cs with
    | nil => rfl
    | cons c cs => simp [clean c (by simp)]
  have right : cs.rdropWhile isSpace = cs := by
    rw [List.rdropWhile_eq_self_iff]
    intro nonempty
    simp [clean _ (List.getLast_mem nonempty)]
  rw [trim, left, right]

/-- Trimming leaves a text alone from its first to a later character if neither of the
two is white space. -/
theorem trim_append {head : List Char} (clean : ∀ d ∈ head.head?, isSpace d = false)
    (solid : isSpace c = false) :
    trim (head ++ c :: tail) = head ++ c :: tail.rdropWhile isSpace := by
  have left : (head ++ c :: tail).dropWhile isSpace = head ++ c :: tail := by
    cases head with
    | nil => simp [solid]
    | cons d head => simp [clean d (by simp)]
  rw [trim, left, List.rdropWhile, List.rdropWhile]
  simp [List.dropWhile_append, solid]

theorem split_ne_nil (sep : Char) (s : String) : split sep s ≠ [] := by
  simp [split, List.splitOn_ne_nil]

theorem split_join (mark : sep.toString = separator) {parts : List String}
    (clean : ∀ part ∈ parts, sep ∉ part.toList) (some : parts ≠ []) :
    split sep (join separator parts) = parts := by
  have chars : (join separator parts).toList = [sep].intercalate (parts.map String.toList) := by
    rw [join, String.toList_intercalate, ← mark]
    simp [Char.toString]
  rw [split, chars, List.splitOn_intercalate]
  · simp [Function.comp_def]
  · simpa using clean
  · simpa using some

/-- Parts that hold the separator themselves fall apart as well. -/
theorem split_join_flatMap (mark : sep.toString = separator) {parts : List String}
    (some : parts ≠ []) : split sep (join separator parts) = parts.flatMap (split sep) := by
  have chars : (join separator parts).toList = [sep].intercalate (parts.map String.toList) := by
    rw [join, String.toList_intercalate, ← mark]
    simp [Char.toString]
  rw [split, chars]
  clear chars
  induction parts with
  | nil => exact absurd rfl some
  | cons part rest ih =>
    cases rest with
    | nil => simp [split]
    | cons next rest =>
      have shape : [sep].intercalate ((part :: next :: rest).map String.toList) =
          part.toList ++ sep :: [sep].intercalate ((next :: rest).map String.toList) := by
        simp [List.intercalate_cons_cons]
      rw [shape, List.splitOn_eq_splitOnP, List.splitOnP_append_cons _ _ (by simp), List.map_append,
        ← List.splitOn_eq_splitOnP, ← List.splitOn_eq_splitOnP, ih (by simp)]
      rfl

theorem before_append (clean : sep ∉ head.toList) (split : s.toList = head.toList ++ sep :: tail) :
    before sep s = head := by
  have kept : ∀ c ∈ head.toList, decide (c ≠ sep) = true := by
    intro c member
    simp only [ne_eq, decide_eq_true_eq]
    rintro rfl
    exact clean member
  rw [before, split, List.takeWhile_append_of_pos kept]
  simp

theorem split_eq_singleton (single : split sep s = [part]) : part = s := by
  obtain ⟨chars, parts, rfl⟩ : ∃ chars, s.toList.splitOn sep = [chars] ∧ .ofList chars = part := by
    simpa [split, List.map_eq_singleton_iff] using single
  have whole : [sep].intercalate (s.toList.splitOn sep) = s.toList := List.intercalate_splitOn sep
  have same : chars = s.toList := by simpa [parts, List.intercalate] using whole
  rw [same, String.ofList_toList]

theorem split_eq_before_cons (sep : Char) (s : String) :
    ∃ rest, split sep s = before sep s :: rest := by
  suffices ∀ cs : List Char, ∃ rest, cs.splitOn sep = cs.takeWhile (· ≠ sep) :: rest by
    obtain ⟨rest, parts⟩ := this s.toList
    exact ⟨rest.map .ofList, by rw [split, parts]; rfl⟩
  intro cs
  induction cs with
  | nil => exact ⟨[], rfl⟩
  | cons c cs ih =>
    obtain ⟨rest, parts⟩ := ih
    rw [List.splitOn_eq_splitOnP] at parts
    rw [List.splitOn_eq_splitOnP, List.splitOnP_cons_eq_if_modifyHead]
    by_cases mark : c = sep
    · exact ⟨cs.splitOnP (· == sep), by simp [mark]⟩
    · exact ⟨rest, by simp [mark, parts]⟩

theorem split_of_not_mem {sep : Char} {s : String} (clean : sep ∉ s.toList) : split sep s = [s] := by
  rw [split, List.splitOn_eq_splitOnP, List.splitOnP_eq_singleton]
  · simp
  · intro c member
    rw [beq_eq_false_iff_ne]
    rintro rfl
    exact clean member

theorem subset_of_trimSpace (s : String) : (trimSpace s).toList ⊆ s.toList := by
  rw [trimSpace, String.toList_ofList, trim]
  exact List.Subset.trans (List.rdropWhile_prefix _ _).subset (List.dropWhile_subset _)

theorem spaces_of_trim_eq_nil {cs : List Char} (empty : trim cs = []) :
    ∀ c ∈ cs, isSpace c = true := by
  have rest : ∀ c ∈ cs.dropWhile isSpace, isSpace c = true := List.rdropWhile_eq_nil_iff.mp empty
  have none : cs.dropWhile isSpace = [] := by
    by_contra some
    have first := List.head_dropWhile_not isSpace some
    simp [rest _ (List.head_mem some)] at first
  exact List.dropWhile_eq_nil_iff.mp none

end Lemmas

theorem mem_intercalate_of_mem {l sep : List Char} {ls : List (List Char)} (listed : l ∈ ls)
    (member : c ∈ l) : c ∈ sep.intercalate ls := by
  induction ls with
  | nil => simp at listed
  | cons first rest ih =>
    cases rest with
    | nil => simp_all [List.intercalate]
    | cons second rest =>
      rw [List.intercalate_cons_cons]
      rcases List.mem_cons.mp listed with rfl | later
      · simp [member]
      · simp [ih later]

theorem join_ne_empty {sep part : String} {parts : List String} (listed : part ∈ parts)
    (some : part ≠ "") : join sep parts ≠ "" := by
  intro empty
  have within : part.toList ⊆ (join sep parts).toList := by
    intro c member
    rw [join, String.toList_intercalate]
    exact mem_intercalate_of_mem (List.mem_map_of_mem listed) member
  rw [empty, String.toList_empty, List.subset_nil, String.toList_eq_nil_iff] at within
  exact some within

theorem exists_of_mem_intercalate {sep : List Char} {ls : List (List Char)}
    (member : c ∈ sep.intercalate ls) : c ∈ sep ∨ ∃ l ∈ ls, c ∈ l := by
  induction ls with
  | nil => simp [List.intercalate] at member
  | cons first rest ih =>
    cases rest with
    | nil => exact .inr ⟨first, by simp, by simpa [List.intercalate] using member⟩
    | cons second rest =>
      rw [List.intercalate_cons_cons, List.mem_append, List.mem_append] at member
      rcases member with (here | between) | later
      · exact .inr ⟨first, by simp, here⟩
      · exact .inl between
      · rcases ih later with between | ⟨l, listed, inside⟩
        · exact .inl between
        · exact .inr ⟨l, List.mem_cons_of_mem _ listed, inside⟩

/-- A text without a line break. -/
def OneLine (s : String) : Prop := '\n' ∉ s.toList

instance (s : String) : Decidable (OneLine s) := inferInstanceAs (Decidable (¬ _))

namespace OneLine
variable {s t : String} {sep : Char}

theorem append (first : OneLine s) (second : OneLine t) : OneLine (s ++ t) := by
  simpa [OneLine] using ⟨first, second⟩

theorem of_subset (whole : OneLine s) (part : ∀ c ∈ t.toList, c ∈ s.toList) : OneLine t :=
  fun broken => whole (part _ broken)

theorem before (whole : OneLine s) : OneLine (Text.before sep s) :=
  whole.of_subset fun c member => by
    rw [Text.before, String.toList_ofList] at member
    exact (List.takeWhile_sublist _).subset member

theorem cutKey (whole : OneLine s) (found : Text.cutKey sep s = some (head, tail)) :
    OneLine head ∧ OneLine tail := by
  simp only [Text.cutKey, Option.filter_eq_some_iff] at found
  obtain ⟨shape, -⟩ := Text.cut_eq_some found.1
  constructor
  · exact whole.of_subset fun c member => by simp [shape, member]
  · exact whole.of_subset fun c member => by simp [shape, member]

theorem split (whole : OneLine s) (part : t ∈ Text.split sep s) : OneLine t := by
  refine whole.of_subset fun c member => ?_
  obtain ⟨chars, listed, rfl⟩ := List.mem_map.mp part
  rw [String.toList_ofList] at member
  have whole : [sep].intercalate (s.toList.splitOn sep) = s.toList := List.intercalate_splitOn sep
  rw [← whole]
  exact mem_intercalate_of_mem listed member

theorem join (mark : OneLine t) (parts : ∀ part ∈ texts, OneLine part) :
    OneLine (Text.join t texts) := by
  intro broken
  rw [Text.join, String.toList_intercalate] at broken
  rcases exists_of_mem_intercalate broken with inside | ⟨chars, listed, inside⟩
  · exact mark inside
  · obtain ⟨part, member, rfl⟩ := List.mem_map.mp listed
    exact parts part member inside

theorem cleanElement {kept : List String} (element : OneLine s) (stack : ∀ e ∈ kept, OneLine e) :
    ∀ e ∈ Text.cleanElement rooted kept s, OneLine e := by
  intro e member
  unfold Text.cleanElement at member
  split at member
  · exact stack e member
  · exact stack e member
  · split at member
    · simp at member
    · rw [List.mem_singleton.mp member]
      decide
  · rcases List.mem_cons.mp member with rfl | old
    · decide
    · exact stack e old
  · exact stack e (List.mem_cons_of_mem _ member)
  · rcases List.mem_cons.mp member with rfl | old
    · exact element
    · exact stack e old

theorem joinPath (dir : OneLine s) (file : OneLine t) : OneLine (Text.joinPath s t) := by
  have path : OneLine (s ++ "/" ++ t) := (dir.append (by decide)).append file
  have parts : ∀ e ∈ ((Text.split '/' (s ++ "/" ++ t)).foldl
      (Text.cleanElement ((s ++ "/" ++ t).toList.head? = some '/')) []), OneLine e :=
    List.foldlRecOn (motive := fun kept => ∀ e ∈ kept, OneLine e) _ _ (by simp)
      fun kept stack element member => cleanElement (path.split member) stack
  have joined := join (t := "/") (by decide) fun e member => parts e (List.mem_reverse.mp member)
  simp only [Text.joinPath]
  split_ifs
  · exact OneLine.append (by decide) joined
  · decide
  · exact joined

end OneLine

end OpenTorque.Text
