import OpenTorque.Core.Text

/-! Records that are written as text and read back piece by piece: the words of a line,
marks that are searched for in the whole text, and folds that settle one field. -/
namespace OpenTorque.Text

/-- A text without the white space at its end. -/
def trimRight (s : String) : String := .ofList (s.toList.rdropWhile isSpace)

/-- A text that `fields` takes as it is. -/
def Word (s : String) : Prop := s ≠ "" ∧ ∀ c ∈ s.toList, isSpace c = false

instance (s : String) : Decidable (Word s) := inferInstanceAs (Decidable (_ ∧ _))

def Solid (s : String) : Prop := ∀ c ∈ s.toList, isSpace c = false

instance (s : String) : Decidable (Solid s) := inferInstanceAs (Decidable (∀ c ∈ s.toList, _))

namespace Solid
variable {s t : String}

theorem append (first : Solid s) (second : Solid t) : Solid (s ++ t) := by
  intro c member
  rcases List.mem_append.mp (String.toList_append ▸ member) with here | here
  · exact first c here
  · exact second c here

theorem oneLine (solid : Solid s) : OneLine s := fun broken => nomatch solid _ broken

theorem word (solid : Solid s) (some : s ≠ "") : Word s := ⟨some, solid⟩

end Solid

/-- A text of letters and underscores, as the keys of a record are. -/
def Label (s : String) : Prop := s ≠ "" ∧ ∀ c ∈ s.toList, c.isAlpha = true ∨ c = '_'

instance (s : String) : Decidable (Label s) := inferInstanceAs (Decidable (_ ∧ _))

namespace Label
variable {s : String} {c : Char}

theorem not_mem (label : Label s) (other : c.isAlpha = false ∧ c ≠ '_') : c ∉ s.toList := by
  intro member
  rcases label.2 c member with letter | line
  · rw [letter] at other
    exact Bool.noConfusion other.1
  · exact other.2 line

theorem solid (label : Label s) : ∀ c ∈ s.toList, isSpace c = false := by
  have listed : ∀ k : Fin 128, (Char.ofNat k).isAlpha = true → isSpace (Char.ofNat k) = false := by
    decide
  intro c member
  rcases label.2 c member with letter | rfl
  · have low : c.toNat < 128 := by
      delta Char.isAlpha Char.isUpper Char.isLower at letter
      simp only [ge_iff_le, Bool.or_eq_true, Bool.and_eq_true, decide_eq_true_eq] at letter
      have upper : c.toNat ≤ 90 ∨ c.toNat ≤ 122 := letter.imp (·.2) (·.2)
      omega
    have here := listed ⟨c.toNat, low⟩
    rw [Char.ofNat_toNat] at here
    exact here letter
  · decide

end Label

/-- A character of one byte is missing where its byte is, which a literal shows at once. -/
theorem not_mem_of_bytes {s : String} {c : Char} {b : UInt8} (code : String.utf8EncodeChar c = [b])
    (absent : b ∉ s.toByteArray.data.toList) : c ∉ s.toList := by
  intro member
  refine absent ?_
  rw [← String.utf8Encode_toList, List.utf8Encode, List.toList_data_toByteArray]
  exact List.mem_flatMap.mpr ⟨c, member, by simp [code]⟩

section Words
variable {s t : String}

theorem trimRight_of_solid (solid : ∀ c ∈ s.toList, isSpace c = false) : trimRight s = s := by
  have kept : s.toList.rdropWhile isSpace = s.toList := by
    rw [List.rdropWhile_eq_self_iff]
    intro nonempty
    simp [solid _ (List.getLast_mem nonempty)]
  rw [trimRight, kept, String.ofList_toList]

theorem length_trimRight (s : String) (whole : (trimRight s).length = s.length) : trimRight s = s := by
  have chars : s.toList.rdropWhile isSpace = s.toList := by
    refine (List.rdropWhile_prefix _ _).eq_of_length ?_
    rw [← String.length_ofList, String.length_toList]
    exact whole
  rw [trimRight, chars, String.ofList_toList]

theorem fields_of_word (word : Word s) : fields s = [s] := by
  have single : s.toList.splitOnP isSpace = [s.toList] :=
    List.splitOnP_eq_singleton fun c member => word.2 c member
  have some : s.toList ≠ [] := by simpa using word.1
  simp [fields, single, some]

theorem mem_of_mem_splitOnP {p : Char → Bool} {cs part : List Char} (member : part ∈ cs.splitOnP p) :
    ∀ c ∈ part, c ∈ cs ∧ p c = false := by
  induction cs generalizing part with
  | nil =>
    obtain rfl : part = [] := by simpa using member
    simp
  | cons d cs ih =>
    have later {part : List Char} (member : part ∈ cs.splitOnP p) : ∀ c ∈ part, c ∈ d :: cs ∧ p c = false :=
      fun c inside => ⟨List.mem_cons_of_mem _ (ih member c inside).1, (ih member c inside).2⟩
    rw [List.splitOnP_cons_eq_if_modifyHead] at member
    split at member
    case isTrue =>
      rcases List.mem_cons.mp member with rfl | rest
      · simp
      · exact later rest
    case isFalse solid =>
      have some : cs.splitOnP p ≠ [] := List.splitOnP_ne_nil _ _
      obtain ⟨first, rest, parts⟩ := List.exists_cons_of_ne_nil some
      rw [parts] at later member
      rcases List.mem_cons.mp member with rfl | rest
      · rw [List.forall_mem_cons]
        exact ⟨⟨List.mem_cons_self, by simpa using solid⟩, later (by simp)⟩
      · exact later (List.mem_cons_of_mem _ rest)

theorem subset_of_mem_splitOnP {p : Char → Bool} {cs part : List Char}
    (member : part ∈ cs.splitOnP p) : part ⊆ cs := fun c inside => (mem_of_mem_splitOnP member c inside).1

theorem subset_of_mem_fields (member : t ∈ fields s) : t.toList ⊆ s.toList := by
  obtain ⟨chars, kept, rfl⟩ := List.mem_map.mp member
  rw [String.toList_ofList]
  exact subset_of_mem_splitOnP (List.mem_filter.mp kept).1

theorem not_mem_of_mem_split {sep : Char} (member : t ∈ split sep s) : sep ∉ t.toList := by
  obtain ⟨chars, listed, rfl⟩ := List.mem_map.mp member
  rw [List.splitOn_eq_splitOnP] at listed
  rw [String.toList_ofList]
  intro inside
  simpa using (mem_of_mem_splitOnP listed sep inside).2

theorem word_of_mem_fields (member : t ∈ fields s) : Word t := by
  obtain ⟨chars, kept, rfl⟩ := List.mem_map.mp member
  obtain ⟨listed, some⟩ := List.mem_filter.mp kept
  refine ⟨by simpa using some, ?_⟩
  rw [String.toList_ofList]
  exact fun c inside => (mem_of_mem_splitOnP listed c inside).2

theorem fields_append (s t : String) : fields (s ++ " " ++ t) = fields s ++ fields t := by
  have chars : (s ++ " " ++ t).toList.splitOnP isSpace =
      s.toList.splitOnP isSpace ++ t.toList.splitOnP isSpace := by
    rw [String.toList_append, String.toList_append, List.append_assoc]
    exact List.splitOnP_append_cons _ _ (by decide)
  rw [fields, chars, List.filter_append, List.map_append, fields, fields]

/-- The words of a line that puts a blank before each of them. -/
theorem fields_blanks {words : List String} (listed : ∀ word ∈ words, Word word) (s : String) :
    fields (s ++ String.join (words.map (" " ++ ·))) = fields s ++ words := by
  induction words generalizing s with
  | nil => simp
  | cons word words ih =>
    obtain ⟨first, rest⟩ := List.forall_mem_cons.mp listed
    have regroup : s ++ String.join ((word :: words).map (" " ++ ·)) =
        (s ++ " " ++ word) ++ String.join (words.map (" " ++ ·)) := by
      simp [String.append_assoc]
    rw [regroup, ih rest, fields_append, fields_of_word first, List.append_assoc,
      List.singleton_append]

theorem split_lines {lines : List String} (whole : ∀ line ∈ lines, OneLine line) :
    split '\n' (String.join (lines.map (· ++ "\n"))) = lines ++ [""] := by
  have chars : (String.join (lines.map (· ++ "\n"))).toList.splitOn '\n' =
      lines.map String.toList ++ [[]] := by
    induction lines with
    | nil => rfl
    | cons line lines ih =>
      obtain ⟨first, rest⟩ := List.forall_mem_cons.mp whole
      have apart : ∀ c ∈ line.toList, (c == '\n') = false := by
        intro c member
        simp only [beq_eq_false_iff_ne]
        rintro rfl
        exact first member
      have text : (String.join ((line :: lines).map (· ++ "\n"))).toList =
          line.toList ++ '\n' :: (String.join (lines.map (· ++ "\n"))).toList := by simp
      rw [text, List.splitOn, List.splitOnP_append_cons_of_forall_mem apart _ (by simp),
        ← List.splitOn, ih rest]
      rfl
  rw [split, chars]
  simp [Function.comp_def]

end Words

section Separators

theorem cut_append {s head tail : String} {sep : Char} (clean : sep ∉ head.toList)
    (whole : s.toList = head.toList ++ sep :: tail.toList) : cut sep s = some (head, tail) := by
  have kept : ∀ c ∈ head.toList, decide (c ≠ sep) = true := by
    intro c member
    simp only [ne_eq, decide_eq_true_eq]
    rintro rfl
    exact clean member
  have parts : s.toList.span (· ≠ sep) = (head.toList, sep :: tail.toList) := by
    rw [List.span_eq_takeWhile_dropWhile, whole, List.takeWhile_append_of_pos kept,
      List.dropWhile_append_of_pos kept]
    simp
  rw [cut, parts]
  simp

theorem afterPrefix_append_none {mark head : String}
    (longer : mark.toList.isPrefixOf head.toList = false)
    (shorter : head.toList.isPrefixOf mark.toList = false) (tail : String) :
    afterPrefix mark (head ++ tail) = none := by
  rw [afterPrefix, if_neg]
  intro starts
  have starts : mark.toList <+: head.toList ++ tail.toList := by
    simpa using List.isPrefixOf_iff_prefix.mp starts
  rcases List.prefix_or_prefix_of_prefix starts (List.prefix_append _ _) with here | here
  · simp [List.isPrefixOf_iff_prefix.mpr here] at longer
  · simp [List.isPrefixOf_iff_prefix.mpr here] at shorter

theorem beforeSuffix_eq_some {mark head s : String} :
    beforeSuffix mark s = some head ↔ s = head ++ mark := by
  rw [beforeSuffix]
  constructor
  · intro found
    split at found
    case isTrue ends =>
      obtain ⟨front, whole⟩ := List.isSuffixOf_iff_suffix.mp ends
      obtain rfl := Option.some.inj found
      refine String.toList_injective ?_
      rw [String.toList_append, String.toList_ofList, ← whole, ← String.length_toList,
        ← String.length_toList, ← whole]
      simp
    case isFalse => cases found
  · rintro rfl
    have ends : mark.toList.isSuffixOf (head ++ mark).toList = true :=
      List.isSuffixOf_iff_suffix.mpr ⟨head.toList, by simp⟩
    rw [if_pos ends, String.toList_append, String.length_append, Nat.add_sub_cancel,
      ← String.length_toList, List.take_left', String.ofList_toList]
    rfl

theorem append_suffix_ne {s t : String} (other : s.toList.getLast? ≠ t.toList.getLast?)
    (first : s ≠ "") (second : t ≠ "") (a b : String) : a ++ s ≠ b ++ t := by
  intro same
  have last := congrArg (fun text : String => text.toList.getLast?) same
  have nonempty : s.toList ≠ [] ∧ t.toList ≠ [] := by simpa using ⟨first, second⟩
  simp only [String.toList_append, List.getLast?_append_of_ne_nil _ nonempty.1,
    List.getLast?_append_of_ne_nil _ nonempty.2] at last
  exact other last

theorem append_suffix_inj {a b s : String} (same : a ++ s = b ++ s) : a = b := by
  have chars := congrArg String.toList same
  rw [String.toList_append, String.toList_append, List.append_cancel_right_eq] at chars
  exact String.toList_injective chars

end Separators

section Marks
variable {s mark : String} {c : Char} {m a b : List Char}

theorem infix_of_cutChars {cs head tail : List Char} (found : cutChars m cs = some (head, tail)) :
    cs = head ++ m ++ tail := by
  induction cs generalizing head tail with
  | nil =>
    simp only [cutChars, Option.ite_none_right_eq_some, List.isEmpty_iff, Option.some.injEq,
      Prod.mk.injEq] at found
    obtain ⟨rfl, rfl, rfl⟩ := found
    rfl
  | cons c cs ih =>
    rw [cutChars] at found
    split at found
    case isTrue starts =>
      obtain ⟨rfl, rfl⟩ : [] = head ∧ (c :: cs).drop m.length = tail := by simpa using found
      obtain ⟨rest, whole⟩ := List.isPrefixOf_iff_prefix.mp starts
      rw [← whole]
      simp
    case isFalse =>
      obtain ⟨⟨h, t⟩, later, same⟩ := Option.map_eq_some_iff.mp found
      obtain ⟨rfl, rfl⟩ : c :: h = head ∧ t = tail := by simpa using same
      rw [ih later]
      rfl

theorem contains_iff : contains s mark = true ↔ mark.toList <:+: s.toList := by
  constructor
  · intro found
    obtain ⟨⟨head, tail⟩, parts⟩ := Option.isSome_iff_exists.mp found
    obtain ⟨⟨h, t⟩, cut, -⟩ := Option.map_eq_some_iff.mp parts
    exact ⟨h, t, (infix_of_cutChars cut).symm⟩
  · rintro ⟨head, tail, whole⟩
    exact contains_of_append whole.symm

/-- A mark without the separator lies on one side of it. -/
theorem infix_append_cons (apart : c ∉ m) : m <:+: a ++ c :: b ↔ m <:+: a ∨ m <:+: b := by
  rw [List.infix_append_iff_ne_nil]
  constructor
  · rintro (inside | inside | ⟨first, second, -, some, rfl, -, starts⟩)
    · exact .inl inside
    · rcases List.infix_cons_iff.mp inside with starts | later
      · cases m with
        | nil => exact .inl (List.nil_infix)
        | cons d m =>
          obtain ⟨rfl, -⟩ := List.cons_prefix_cons.mp starts
          simp at apart
      · exact .inr later
    · cases second with
      | nil => exact absurd rfl some
      | cons d second =>
        obtain ⟨rfl, -⟩ := List.cons_prefix_cons.mp starts
        simp at apart
  · rintro (inside | inside)
    · exact .inl inside
    · exact .inr (.inl (inside.trans (List.suffix_cons c b).isInfix))

/-- A mark does not begin where its first character is missing. -/
theorem infix_of_append (missing : c ∉ a) (inside : c :: m <:+: a ++ b) : c :: m <:+: b := by
  induction a with
  | nil => exact inside
  | cons d a ih =>
    rw [List.mem_cons, not_or] at missing
    rcases List.infix_cons_iff.mp inside with starts | later
    · exact absurd (List.cons_prefix_cons.mp starts).1 missing.1
    · exact ih missing.2 later

/-- A mark without the separator lies in one of the parts. -/
theorem infix_intercalate (some : m ≠ []) (apart : c ∉ m) {ls : List (List Char)} :
    m <:+: [c].intercalate ls ↔ ∃ l ∈ ls, m <:+: l := by
  induction ls with
  | nil => simpa using some
  | cons l ls ih =>
    cases ls with
    | nil => simp
    | cons l' ls =>
      rw [List.intercalate_cons_cons, List.append_assoc, List.singleton_append,
        infix_append_cons apart, ih]
      simp

theorem contains_join (some : mark ≠ "") (apart : c ∉ mark.toList) {parts : List String} :
    contains (join c.toString parts) mark = true ↔ ∃ part ∈ parts, contains part mark = true := by
  have chars : (join c.toString parts).toList = [c].intercalate (parts.map String.toList) := by
    rw [join, String.toList_intercalate]
    simp [Char.toString]
  rw [contains_iff, chars, infix_intercalate (by simpa using some) apart]
  simp [contains_iff]

end Marks

theorem toLower_toLower (s : String) : toLower (toLower s) = toLower s := by
  have each : ∀ c : Char, c.toLower.toLower = c.toLower := by
    intro c
    have small : ¬ c.toLower.isUpper := by
      delta Char.isUpper Char.toLower
      split <;> grind [UInt32.toNat_add, Char.toNat_val]
    have fixed : ∀ d : Char, ¬ d.isUpper → d.toLower = d := by
      intro d other
      refine dif_neg fun range => other ?_
      delta Char.isUpper
      simpa only [Bool.and_eq_true, decide_eq_true_eq] using range
    exact fixed _ small
  simp [toLower, Function.comp_def, each]

theorem eq_of_toLower_char {c d : Char} (same : c.toLower = d) (plain : d.isLower = false) : c = d := by
  by_cases upper : c.val ≥ 'A'.val ∧ c.val ≤ 'Z'.val
  · have shifted : c.toLower.val = c.val + 32 := by
      delta Char.toLower
      rw [dif_pos upper]
      rfl
    have low : 65 ≤ c.toNat := upper.1
    have high : c.toNat ≤ 90 := upper.2
    have lower : d.isLower = true := by
      delta Char.isLower
      rw [← same, shifted]
      simp [UInt32.le_iff_toNat_le, UInt32.toNat_add]
      omega
    rw [lower] at plain
    cases plain
  · exact (dif_neg upper).symm.trans same

theorem le_foldShift (n : Nat) (beyond : 128 ≤ n) : 97 ≤ n + foldShift n := by
  rw [foldShift]
  split
  · omega
  · cases found : shifted.find? _ with
    | none =>
      rw [Option.map_none, Option.getD_none]
      omega
    | some r =>
      have targets : ∀ r ∈ shifted, 97 ≤ r.1 + r.2.2 := by decide +kernel
      have target := targets r (List.mem_of_find?_eq_some found)
      have inside := List.find?_some found
      simp only [Bool.and_eq_true, decide_eq_true_eq] at inside
      rw [Option.map_some, Option.getD_some]
      omega

/-- What lies before the small letters is the folding of nothing but itself. -/
theorem eq_of_simpleFold {c d : Char} (same : simpleFold c = simpleFold d) (low : d.toNat < 97)
    (plain : d.toLower = d) : c = d := by
  have fixed : simpleFold d = d.toNat := by
    rw [simpleFold, if_pos (by omega), plain]
  rw [fixed, simpleFold] at same
  split_ifs at same with ascii
  · refine eq_of_toLower_char (Char.toNat_inj.mp same) ?_
    have early : ¬ 'a'.val ≤ d.val := fun small => absurd low (Nat.not_lt.mpr small)
    delta Char.isLower
    rw [decide_eq_false early, Bool.false_and]
  · have := le_foldShift c.toNat (by omega)
    omega

theorem eq_of_equalFold {s t : String} (same : equalFold s t = true)
    (plain : ∀ c ∈ s.toList, c.toNat < 97 ∧ c.toLower = c) : t = s := by
  have folds : s.toList.map simpleFold = t.toList.map simpleFold := of_decide_eq_true same
  refine String.toList_inj.mp (List.ext_getElem ?_ fun i inT inS => ?_)
  · simpa using (congrArg List.length folds).symm
  · have char := List.getElem_of_eq folds (by simpa using inS)
    rw [List.getElem_map, List.getElem_map] at char
    obtain ⟨low, fixed⟩ := plain _ (List.getElem_mem inS)
    exact eq_of_simpleFold char.symm low fixed

theorem OneLine.toLower {s : String} (whole : OneLine s) : OneLine (toLower s) := by
  intro broken
  simp only [Text.toLower, String.toList_ofList, List.mem_map] at broken
  obtain ⟨c, member, same⟩ := broken
  exact whole (eq_of_toLower_char same (by decide) ▸ member)

theorem OneLine.trimSpace {s : String} (whole : OneLine s) : OneLine (trimSpace s) :=
  whole.of_subset fun _ inside => subset_of_trimSpace s inside

theorem mem_dropWhile {p : Char → Bool} {cs : List Char} (member : c ∈ cs) (stays : p c = false) :
    c ∈ cs.dropWhile p := by
  rw [← List.takeWhile_append_dropWhile (p := p) (l := cs), List.mem_append] at member
  refine member.resolve_left fun taken => ?_
  simp [List.mem_takeWhile_imp taken] at stays

theorem mem_trimSpace (member : c ∈ s.toList) (solid : isSpace c = false) :
    c ∈ (trimSpace s).toList := by
  rw [trimSpace, String.toList_ofList, trim, List.rdropWhile, List.mem_reverse]
  refine mem_dropWhile ?_ solid
  rw [List.mem_reverse]
  exact mem_dropWhile member solid

@[simp] theorem length_toLower (s : String) : (toLower s).length = s.length := by
  simp [toLower, String.length_toList]

end OpenTorque.Text

namespace OpenTorque

theorem nodup_eraseDups [BEq α] [LawfulBEq α] : (l : List α) → l.eraseDups.Nodup
  | [] => by simp
  | a :: l => by
    rw [List.eraseDups_cons, List.nodup_cons]
    refine ⟨by simp, ?_⟩
    have shorter : (l.filter fun b => !b == a).length ≤ l.length := List.length_filter_le ..
    exact nodup_eraseDups _
  termination_by l => l.length
  decreasing_by simp only [List.length_cons]; omega

theorem eraseDups_eq_self [BEq α] [LawfulBEq α] {l : List α} : l.eraseDups = l ↔ l.Nodup := by
  constructor
  · intro same
    exact same ▸ nodup_eraseDups l
  · intro nodup
    induction l with
    | nil => rfl
    | cons a l ih =>
      obtain ⟨alone, nodup⟩ := List.nodup_cons.mp nodup
      have kept : (l.filter fun b => !b == a) = l := by
        rw [List.filter_eq_self]
        intro b member
        have other : b ≠ a := fun same => alone (same ▸ member)
        simp [other]
      rw [List.eraseDups_cons, kept, ih nodup]

/-- A field that some steps of a fold set to `v` and the others leave alone. -/
theorem foldl_settles {S A V : Type} {read : S → A → S} {field : S → V} {v : V} (steps : List A) (x : S)
    (each : ∀ a ∈ steps, (∀ x, field (read x a) = v) ∨ ∀ x, field (read x a) = field x)
    (some : field x = v ∨ ∃ a ∈ steps, ∀ x, field (read x a) = v) :
    field (steps.foldl read x) = v := by
  induction steps generalizing x with
  | nil => simpa using some
  | cons a steps ih =>
    rw [List.forall_mem_cons] at each
    refine ih (read x a) each.2 ?_
    rcases each.1 with sets | leaves
    · exact .inl (sets x)
    · rcases some with already | ⟨b, listed, sets⟩
      · exact .inl ((leaves x).trans already)
      · rcases List.mem_cons.mp listed with rfl | later
        · exact .inl (sets x)
        · exact .inr ⟨b, later, sets⟩

end OpenTorque
