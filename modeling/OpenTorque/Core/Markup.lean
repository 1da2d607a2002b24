import OpenTorque.Core.Records

/-! Flat documents of elements `<tag>value</tag>` that are read by searching for a tag. A
mark begins with the opening bracket and has no other one, so it is found where it was
written as long as no value holds it. -/
namespace OpenTorque.Markup
open Text

def following (mark cs : List Char) : Option (List Char) := (cutChars mark cs).map (·.2)

section Search
variable {m a b : List Char}

theorem isPrefixOf_eq_false (other : ¬ a <+: b) : a.isPrefixOf b = false :=
  Bool.eq_false_iff.mpr fun starts => other (List.isPrefixOf_iff_prefix.mp starts)

theorem following_cons (other : ¬ m <+: b) :
    following ('<' :: m) ('<' :: b) = following ('<' :: m) b := by
  have none : ('<' :: m).isPrefixOf ('<' :: b) = false := by simp [isPrefixOf_eq_false other]
  rw [following, cutChars, none]
  simp [following, Function.comp_def]

theorem following_here (m b : List Char) : following ('<' :: m) ('<' :: (m ++ b)) = some b := by
  simp [following, cutChars]

theorem following_append (clean : '<' ∉ a) (b : List Char) :
    following ('<' :: m) (a ++ b) = following ('<' :: m) b := by
  induction a with
  | nil => rfl
  | cons c a ih =>
    have differs : c ≠ '<' := fun same => clean (by simp [same])
    rw [← ih fun member => clean (by simp [member]), List.cons_append, following, cutChars]
    simp [differs.symm, following, Function.comp_def]

/-- A value without the mark is passed over up to the bracket that ends it. -/
theorem cutChars_value (apart : '<' ∉ m) (silent : ¬ '<' :: m <:+: a) (b : List Char) :
    cutChars ('<' :: m) (a ++ '<' :: b) =
      (cutChars ('<' :: m) ('<' :: b)).map fun p => (a ++ p.1, p.2) := by
  induction a with
  | nil => simp
  | cons c a ih =>
    have later : ¬ '<' :: m <:+: a := fun inside => silent (inside.trans (List.suffix_cons c a).isInfix)
    have here : ¬ '<' :: m <+: c :: (a ++ '<' :: b) := by
      intro starts
      obtain ⟨rfl, body⟩ := List.cons_prefix_cons.mp starts
      rcases List.prefix_or_prefix_of_prefix body (List.prefix_append _ _) with inside | ⟨rest, rfl⟩
      · exact silent (List.cons_prefix_cons.mpr ⟨rfl, inside⟩).isInfix
      · cases rest with
        | nil => exact silent (by simp)
        | cons d rest =>
          obtain ⟨rfl, -⟩ := List.cons_prefix_cons.mp ((List.prefix_append_right_inj a).mp body)
          simp at apart
    rw [List.cons_append, cutChars, isPrefixOf_eq_false here, ih later]
    simp [Function.comp_def]

theorem following_value (apart : '<' ∉ m) (silent : ¬ '<' :: m <:+: a) (b : List Char) :
    following ('<' :: m) (a ++ '<' :: b) = following ('<' :: m) ('<' :: b) := by
  simp [following, cutChars_value apart silent, Function.comp_def]

end Search

def IsTag (t : List Char) : Prop := '<' ∉ t ∧ '>' ∉ t

instance (t : List Char) : Decidable (IsTag t) := inferInstanceAs (Decidable (_ ∧ _))

/-- A mark that an opening tag can match, with its bracket left out. -/
structure IsMark (m : List Char) : Prop where
  apart : '<' ∉ m
  opening : ∀ rest, ¬ m <+: '/' :: rest

structure Element where
  tag : List Char
  value : List Char

namespace Element
variable {e : Element} {m : List Char}

def text (e : Element) : List Char :=
  '<' :: (e.tag ++ '>' :: (e.value ++ '<' :: ('/' :: e.tag ++ ['>'])))

/-- An element whose opening tag is not what the mark looks for is passed over. -/
theorem following_other (mark : IsMark m) (tag : IsTag e.tag) (silent : ¬ '<' :: m <:+: e.value)
    (other : ∀ rest, ¬ m <+: e.tag ++ '>' :: rest) (b : List Char) :
    following ('<' :: m) (e.text ++ b) = following ('<' :: m) b := by
  have opened : '<' ∉ e.tag ++ ['>'] := by simpa using tag.1
  have closed : '<' ∉ '/' :: e.tag ++ ['>'] := by simpa using tag.1
  have passed : ¬ '<' :: m <:+: e.tag ++ ['>'] ++ e.value :=
    fun inside => silent (infix_of_append opened inside)
  calc following ('<' :: m) (e.text ++ b)
      = following ('<' :: m)
          ('<' :: (e.tag ++ '>' :: (e.value ++ '<' :: ('/' :: e.tag ++ ['>'] ++ b)))) := by
        simp [text]
    _ = following ('<' :: m)
          (e.tag ++ ['>'] ++ e.value ++ '<' :: ('/' :: e.tag ++ ['>'] ++ b)) := by
        rw [following_cons (other _)]
        simp
    _ = following ('<' :: m) ('/' :: e.tag ++ ['>'] ++ b) := by
        rw [following_value mark.apart passed]
        exact following_cons (mark.opening _)
    _ = following ('<' :: m) b := following_append closed b

theorem following_match (tag : e.tag ++ ['>'] = m ++ rest) (b : List Char) :
    following ('<' :: m) (e.text ++ b) =
      some (rest ++ e.value ++ '<' :: ('/' :: e.tag ++ ['>'] ++ b)) := by
  have opened : e.text ++ b =
      '<' :: (m ++ (rest ++ e.value ++ '<' :: ('/' :: e.tag ++ ['>'] ++ b))) := by
    rw [← List.append_assoc m, ← List.append_assoc m, ← tag]
    simp [text]
  rw [opened, following_here]

theorem cutChars_close (tag : IsTag e.tag) (silent : ¬ '<' :: '/' :: e.tag ++ ['>'] <:+: e.value)
    (b : List Char) :
    cutChars ('<' :: '/' :: e.tag ++ ['>']) (e.value ++ '<' :: ('/' :: e.tag ++ ['>'] ++ b)) =
      some (e.value, b) := by
  have apart : '<' ∉ '/' :: e.tag ++ ['>'] := by simpa using tag.1
  have found : cutChars ('<' :: ('/' :: e.tag ++ ['>'])) ('<' :: ('/' :: e.tag ++ ['>'] ++ b)) =
      some ([], b) := by simp [cutChars]
  rw [List.cons_append, cutChars_value apart silent, found]
  simp

end Element

/-- Names are compared up to the separator that ends them. -/
theorem prefix_tag {sep : Char} {t u rest : List Char} (first : sep ∉ t) (second : sep ∉ u)
    (starts : t ++ [sep] <+: u ++ sep :: rest) : t = u := by
  have name {t : List Char} (clean : sep ∉ t) (rest : List Char) :
      (t ++ sep :: rest).takeWhile (· ≠ sep) = t := by
    rw [List.takeWhile_append_of_pos]
    · simp
    · intro c member
      simp only [ne_eq, decide_eq_true_eq]
      rintro rfl
      exact clean member
  obtain ⟨more, whole⟩ := starts
  rw [List.append_assoc, List.singleton_append] at whole
  rw [← name first more, whole, name second]

/-- A mark without the closing bracket matches within the tag. -/
theorem prefix_of_prefix_tag {m u rest : List Char} (apart : '>' ∉ m)
    (starts : m <+: u ++ '>' :: rest) : m <+: u := by
  rcases List.prefix_or_prefix_of_prefix starts (List.prefix_append _ _) with inside | ⟨more, rfl⟩
  · exact inside
  · cases more with
    | nil => simp
    | cons c more =>
      obtain ⟨rfl, -⟩ := List.cons_prefix_cons.mp ((List.prefix_append_right_inj u).mp starts)
      simp at apart

theorem isMark_open {t : List Char} (tag : IsTag t) (plain : t.head? ≠ some '/') :
    IsMark (t ++ ['>']) where
  apart := by simpa using tag.1
  opening := by
    intro rest starts
    cases t with
    | nil => exact absurd (List.cons_prefix_cons.mp starts).1 (by decide)
    | cons c t => exact plain (by rw [(List.cons_prefix_cons.mp starts).1]; rfl)

/-- The value of the first element with that tag. -/
def extract (tag content : List Char) : Option (List Char) := do
  let rest ← following ('<' :: (tag ++ ['>'])) content
  let (value, _) ← cutChars ('<' :: '/' :: tag ++ ['>']) rest
  some value

/-- Elements one after the other, each with the same text before and after it. -/
def document (lead trail : List Char) (es : List Element) : List Char :=
  es.flatMap fun e => lead ++ e.text ++ trail

section Documents
variable {lead trail : List Char} {es : List Element}

theorem following_document (clean : '<' ∉ lead ∧ '<' ∉ trail) (mark : IsMark m)
    (tags : ∀ e ∈ es, IsTag e.tag) (silent : ∀ e ∈ es, ¬ '<' :: m <:+: e.value)
    (other : ∀ e ∈ es, ∀ rest, ¬ m <+: e.tag ++ '>' :: rest) (b : List Char) :
    following ('<' :: m) (document lead trail es ++ b) = following ('<' :: m) b := by
  induction es with
  | nil => rfl
  | cons e es ih =>
    rw [List.forall_mem_cons] at tags silent other
    rw [document, List.flatMap_cons, List.append_assoc, List.append_assoc, List.append_assoc,
      following_append clean.1, e.following_other mark tags.1 silent.1 other.1,
      following_append clean.2]
    exact ih tags.2 silent.2 other.2

theorem extract_document_none {t : List Char} (clean : '<' ∉ lead ∧ '<' ∉ trail) (tag : IsTag t)
    (plain : t.head? ≠ some '/') (tags : ∀ e ∈ es, IsTag e.tag)
    (silent : ∀ e ∈ es, ¬ '<' :: (t ++ ['>']) <:+: e.value) (absent : ∀ e ∈ es, e.tag ≠ t)
    (b : List Char) (last : following ('<' :: (t ++ ['>'])) b = none) :
    extract t (document lead trail es ++ b) = none := by
  rw [extract, following_document clean (isMark_open tag plain) tags silent
    (fun e listed rest starts => absent e listed (prefix_tag tag.2 (tags e listed).2 starts).symm),
    last]
  rfl

theorem extract_document_some {t v : List Char} (clean : '<' ∉ lead ∧ '<' ∉ trail) (tag : IsTag t)
    (plain : t.head? ≠ some '/') (tags : ∀ e ∈ es, IsTag e.tag)
    (silent : ∀ e ∈ es, ¬ '<' :: (t ++ ['>']) <:+: e.value)
    (closed : ¬ '<' :: '/' :: t ++ ['>'] <:+: v) (listed : ⟨t, v⟩ ∈ es)
    (only : ∀ e ∈ es, e.tag = t → e.value = v) (b : List Char) :
    extract t (document lead trail es ++ b) = some v := by
  induction es with
  | nil => cases listed
  | cons e es ih =>
    rw [List.forall_mem_cons] at tags silent only
    have split : document lead trail (e :: es) ++ b =
        lead ++ (e.text ++ (trail ++ (document lead trail es ++ b))) := by
      simp [document, List.append_assoc]
    by_cases here : e.tag = t
    · subst here
      obtain rfl := only.1 rfl
      have found : following ('<' :: (e.tag ++ ['>'])) (document lead trail (e :: es) ++ b) =
          some (e.value ++ '<' :: ('/' :: e.tag ++ ['>'] ++ (trail ++ (document lead trail es ++ b)))) := by
        rw [split, following_append clean.1]
        exact e.following_match (List.append_nil _).symm _
      rw [extract, found]
      show (cutChars _ _).bind _ = _
      rw [e.cutChars_close tags.1 closed]
      rfl
    · have later : extract t (document lead trail (e :: es) ++ b) =
          extract t (document lead trail es ++ b) := by
        rw [extract, split, following_append clean.1, e.following_other (isMark_open tag plain) tags.1
          silent.1 (fun rest starts => here (prefix_tag tag.2 tags.1.2 starts).symm),
          following_append clean.2, extract]
      rw [later]
      refine ih tags.2 silent.2 ?_ only.2
      rcases List.mem_cons.mp listed with same | there
      · exact absurd (congrArg Element.tag same).symm here
      · exact there

end Documents

end OpenTorque.Markup
