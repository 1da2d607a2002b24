import OpenTorque.Server.QueueDocument
import OpenTorque.Server.Step

/-! The inventory of the nodes. Its lines are words that begin with a key, and the reader
goes through the words of a line once for every key. What the reader can produce is what
survives: a node without properties that no administrator has taken out of service. -/
namespace OpenTorque.Pbs
open Text (Solid)
open Queue (Item)

theorem solid_itoa (n : Int) : Solid (itoa n) := by
  intro c member
  rcases mem_itoa member with rfl | digit
  · decide
  · exact isSpace_of_isDigit digit

namespace Node
variable {n : Node} {order : RangeOrder}

def gresPart (n : Node) (k : String) : String :=
  "gres." ++ (k ++ "=" ++ itoa ((n.gres.lookup k).getD 0))

def parts (n : Node) (order : RangeOrder) : List String :=
  ["np=" ++ itoa n.numProcs] ++ (if n.queue = "" then [] else ["queue=" ++ n.queue]) ++
    (if n.dynamic then ["dynamic=1"] else []) ++
    (if n.groups = [] then [] else ["groups=" ++ Text.join "," n.groups]) ++
    (n.gres.range order).map n.gresPart

def body (name : String) (n : Node) (order : RangeOrder) : String :=
  name ++ String.join ((n.parts order).map (" " ++ ·))

theorem line_eq (name : String) : n.line name order = n.body name order ++ "\n" := by
  have np : " np=" = " " ++ "np=" := by decide
  have queue : " queue=" = " " ++ "queue=" := by decide
  have groups : " groups=" = " " ++ "groups=" := by decide
  have gres : " gres." = " " ++ "gres." := by decide
  unfold line body parts gresPart
  rw [np, queue, groups, gres]
  simp only [List.map_append, String.join_append, List.map_map, Function.comp_def,
    String.append_assoc, List.map_cons, String.join_cons, apply_ite (List.map _),
    apply_ite String.join, List.map_nil, String.join_nil, String.append_empty]
  rfl

/-- What requests with names of one word each can give a node. -/
structure Legible (n : Node) : Prop where
  numProcs : minInt ≤ n.numProcs ∧ n.numProcs ≤ maxInt
  queue : Solid n.queue
  groups : (∀ item ∈ n.groups, Item item) ∧ n.groups.Nodup
  gres : ∀ k v, n.gres.lookup k = some v → Solid k ∧ 0 ≤ v ∧ v ≤ maxInt

/-- What a line can say of the node of that name. -/
structure Durable (name : String) (n : Node) : Prop where
  named : name ≠ "" ∧ Text.afterPrefix "#" name = none
  properties : n.properties = []
  admin : n.state.offline = false ∧ n.state.drain = false ∧ n.state.excl = false
  gres : ∀ k ∈ n.gres, '=' ∉ k.toList

instance (name : String) (n : Node) : Decidable (n.Durable name) :=
  decidable_of_iff ((name ≠ "" ∧ Text.afterPrefix "#" name = none) ∧ n.properties = [] ∧
      (n.state.offline = false ∧ n.state.drain = false ∧ n.state.excl = false) ∧
      ∀ k ∈ n.gres, '=' ∉ k.toList)
    ⟨fun ⟨named, properties, admin, gres⟩ => ⟨named, properties, admin, gres⟩,
      fun durable => ⟨durable.named, durable.properties, durable.admin, durable.gres⟩⟩

/-- The two nodes agree on what an administrator or a registration gave them. -/
structure SameInventory (n n' : Node) : Prop where
  numProcs : n'.numProcs = n.numProcs
  queue : n'.queue = n.queue
  dynamic : n'.dynamic = n.dynamic
  groups : n'.groups = n.groups
  properties : n'.properties = n.properties
  gres : ∀ k, n'.gres.lookup k = n.gres.lookup k
  admin : n'.state.offline = n.state.offline ∧ n'.state.drain = n.state.drain ∧
    n'.state.excl = n.state.excl

theorem Durable.of_same {n' : Node} (durable : n'.Durable name) (same : n.SameInventory n') :
    n.Durable name where
  named := durable.named
  properties := same.properties ▸ durable.properties
  admin := by
    obtain ⟨offline, drain, excl⟩ := same.admin
    rw [← offline, ← drain, ← excl]
    exact durable.admin
  gres := by
    intro k present
    refine durable.gres k ?_
    rw [← AList.lookup_isSome, same.gres, AList.lookup_isSome]
    exact present

theorem word_parts (legible : n.Legible) : ∀ part ∈ n.parts order, Text.Word part := by
  have keyed {key value : String} (first : Text.Word key) (rest : Solid value) :
      Text.Word (key ++ value) :=
    ⟨fun empty => first.1 (String.append_eq_empty_iff.mp empty).1, Solid.append first.2 rest⟩
  intro part member
  simp only [parts, List.mem_append, List.mem_singleton, List.mem_ite_nil_left,
    List.mem_ite_nil_right, List.mem_map, Assoc.mem_range] at member
  rcases member with (((rfl | ⟨-, rfl⟩) | ⟨-, rfl⟩) | ⟨-, rfl⟩) | ⟨k, present, rfl⟩
  · exact keyed (by decide) (solid_itoa _)
  · exact keyed (by decide) legible.queue
  · decide
  · exact keyed (by decide) (Queue.solid_join legible.groups.1)
  · obtain ⟨v, found⟩ := Assoc.exists_lookup present
    rw [gresPart]
    exact keyed (by decide)
      (((legible.gres k v found).1.append (show Solid "=" by decide)).append (solid_itoa _))

theorem fields_body (legible : n.Legible) (name : String) :
    Text.fields (n.body name order) = Text.fields name ++ n.parts order :=
  Text.fields_blanks (word_parts legible) name

theorem filterMap_parts (read : String → Option α) : (n.parts order).filterMap read =
    (read ("np=" ++ itoa n.numProcs)).toList ++
      (if n.queue = "" then [] else (read ("queue=" ++ n.queue)).toList) ++
      (if n.dynamic then (read "dynamic=1").toList else []) ++
      (if n.groups = [] then [] else (read ("groups=" ++ Text.join "," n.groups)).toList) ++
      (n.gres.range order).filterMap fun k => read (n.gresPart k) := by
  have single (part : String) : [part].filterMap read = (read part).toList := by
    cases found : read part <;> simp [found]
  simp only [parts, List.filterMap_append, single, apply_ite (List.filterMap read),
    List.filterMap_nil, List.filterMap_map]
  rfl

section Keys
variable (order)

theorem lineProcs_parts (legible : n.Legible) : lineProcs (n.parts order) = n.numProcs := by
  have other : Text.afterPrefix "np=" "dynamic=1" = none := by decide
  have words : (n.parts order).filterMap (Text.afterPrefix "np=") = [itoa n.numProcs] := by
    simp (disch := decide) only [filterMap_parts, gresPart, Text.afterPrefix_append,
      Text.afterPrefix_append_none, other]
    simp
  rw [lineProcs, words]
  simp [scanInto, scanInt_itoa _ legible.numProcs.1 legible.numProcs.2]

theorem queue_parts : (lastWith "queue=" (n.parts order)).getD "" = n.queue := by
  have other : Text.afterPrefix "queue=" "dynamic=1" = none := by decide
  have words : (n.parts order).filterMap (Text.afterPrefix "queue=") =
      if n.queue = "" then [] else [n.queue] := by
    simp (disch := decide) only [filterMap_parts, gresPart, Text.afterPrefix_append,
      Text.afterPrefix_append_none, other]
    simp
  rw [lastWith, words]
  split
  case isTrue none => exact none.symm
  case isFalse => rfl

theorem groups_parts (legible : n.Legible) :
    ((lastWith "groups=" (n.parts order)).map parseList).getD [] = n.groups := by
  have other : Text.afterPrefix "groups=" "dynamic=1" = none := by decide
  have words : (n.parts order).filterMap (Text.afterPrefix "groups=") =
      if n.groups = [] then [] else [Text.join "," n.groups] := by
    simp (disch := decide) only [filterMap_parts, gresPart, Text.afterPrefix_append,
      Text.afterPrefix_append_none, other]
    simp
  rw [lastWith, words]
  split
  case isTrue none => exact none.symm
  case isFalse some =>
    show parseList (Text.join "," n.groups) = n.groups
    rw [Queue.parseList_join some legible.groups.1]
    exact eraseDups_eq_self.mpr legible.groups.2

theorem mem_parts_dynamic : "dynamic=1" ∈ n.parts order ↔ n.dynamic = true := by
  have np (x : String) : "np=" ++ x ≠ "dynamic=1" := Text.append_ne (by decide) x
  have queue (x : String) : "queue=" ++ x ≠ "dynamic=1" := Text.append_ne (by decide) x
  have groups (x : String) : "groups=" ++ x ≠ "dynamic=1" := Text.append_ne (by decide) x
  have gres (x : String) : "gres." ++ x ≠ "dynamic=1" := Text.append_ne (by decide) x
  simp [parts, gresPart, gres, (np _).symm, (queue _).symm, (groups _).symm]

theorem gres_parts (legible : n.Legible) (plain : ∀ k ∈ n.gres, '=' ∉ k.toList) :
    (n.parts order).filterMap lineGRes =
      (n.gres.range order).map fun k => (k, (n.gres.lookup k).getD 0) := by
  have other {part : String} (apart : Text.afterPrefix "gres." part = none) :
      lineGRes part = none := by simp [lineGRes, apart]
  have own : ∀ k ∈ n.gres.range order,
      lineGRes (n.gresPart k) = some (k, (n.gres.lookup k).getD 0) := by
    intro k listed
    obtain ⟨v, found⟩ := Assoc.exists_lookup ((Assoc.mem_range ..).mp listed)
    obtain ⟨-, nonneg, small⟩ := legible.gres k v found
    have cut : Text.cut '=' (k ++ "=" ++ itoa v) = some (k, itoa v) :=
      Text.cut_append (plain k (Assoc.mem_of_lookup found)) (by simp)
    have low : minInt ≤ v := by unfold minInt; omega
    simp [lineGRes, gresPart, found, cut, parseInt_itoa v low small, nonneg]
  rw [filterMap_parts, other (Text.afterPrefix_append_none (by decide) (by decide) _),
    other (Text.afterPrefix_append_none (by decide) (by decide) _), other (by decide),
    other (Text.afterPrefix_append_none (by decide) (by decide) _), List.filterMap_congr own]
  simp

/-- A line that says all of a node registers the same node. -/
theorem same_applyLine (legible : n.Legible) (durable : n.Durable name) :
    n.SameInventory ((newNode (lineProcs (n.parts order))).applyLine (n.parts order)) where
  numProcs := lineProcs_parts order legible
  queue := by
    show (if (lastWith "queue=" (n.parts order)).getD "" = "" then "" else _) = n.queue
    rw [queue_parts]
    split
    case isTrue none => exact none.symm
    case isFalse => rfl
  dynamic := by
    show (false || decide ("dynamic=1" ∈ n.parts order)) = n.dynamic
    simp only [mem_parts_dynamic, Bool.false_or, Bool.decide_eq_true]
  groups := by
    show (if ((lastWith "groups=" (n.parts order)).map parseList).getD [] = [] then [] else _) =
      n.groups
    rw [groups_parts order legible]
    split
    case isTrue none => exact none.symm
    case isFalse => rfl
  properties := durable.properties.symm
  gres := by
    intro k
    show (((n.parts order).filterMap lineGRes).foldl (fun m e => m.insert e.1 e.2)
      (∅ : Assoc Int)).lookup k = n.gres.lookup k
    have own : ∀ e ∈ (n.gres.range order).map fun k => (k, (n.gres.lookup k).getD 0),
        e.1 = k → n.gres.lookup k = some e.2 := by
      intro e member same
      obtain ⟨key, listed, rfl⟩ := List.mem_map.mp member
      obtain ⟨v, found⟩ := Assoc.exists_lookup ((Assoc.mem_range ..).mp listed)
      rw [← same, found]
      rfl
    rw [gres_parts order legible durable.gres, Assoc.lookup_foldl_insert own]
    split
    · rfl
    case isFalse absent =>
      have missing : k ∉ n.gres := fun present => absent (by simpa using present)
      exact (AList.lookup_eq_none.mpr missing).symm
  admin := by
    obtain ⟨offline, drain, excl⟩ := durable.admin
    rw [offline, drain, excl]
    exact ⟨rfl, rfl, rfl⟩

end Keys

/-- The reader only registers nodes that its lines can describe. -/
theorem Durable.applyLine (durable : n.Durable name) (parts : List String) :
    (n.applyLine parts).Durable name :=
  { durable with
    gres := by
      refine List.foldlRecOn (motive := fun m : Assoc Int => ∀ k ∈ m, '=' ∉ k.toList)
        (parts.filterMap lineGRes) _ durable.gres ?_
      intro m plain entry listed k present
      rcases (AList.mem_insert _).mp present with rfl | old
      · obtain ⟨part, -, read⟩ := List.mem_filterMap.mp listed
        simp only [lineGRes, Option.bind_eq_bind, Option.bind_eq_some_iff] at read
        obtain ⟨body, -, ⟨name, count⟩, cut, v, -, kept⟩ := read
        obtain rfl := Option.some.inj (Option.ite_none_right_eq_some.mp kept).2
        exact (Text.cut_eq_some cut).2
      · exact plain k old }

end Node

namespace NodeManager
variable {m : NodeManager} {order : RangeOrder}

/-- A node that is registered if it is not known, and then changed. -/
theorem register_lookup (m : NodeManager) (name : String) (np : Int) (change : Node → Node)
    (x : String) : ((m.addNode name np).onNode name change).lookup x =
      if x = name then some (change ((m.lookup name).getD (.newNode np))) else m.lookup x := by
  rw [addNode]
  split
  case isTrue known =>
    obtain ⟨n, found⟩ := Assoc.exists_lookup known
    rw [onNode, found]
    exact Assoc.lookup_insert_ite ..
  case isFalse fresh =>
    rw [onNode, AList.lookup_insert, AList.lookup_eq_none.mpr fresh]
    simp only [Assoc.lookup_insert_ite]
    split <;> rfl

theorem readLine_of_fields (read : Text.fields line = name :: parts) (x : String) :
    (m.readLine line).lookup x =
      if x = name ∧ Text.afterPrefix "#" name = none then
        some (((m.lookup name).getD (.newNode (Node.lineProcs parts))).applyLine parts)
      else m.lookup x := by
  rw [readLine, read]
  show (if (Text.afterPrefix "#" name).isSome = true then m else _).lookup x = _
  cases mark : Text.afterPrefix "#" name with
  | some => simp
  | none => simp [register_lookup]

/-- Every node is one that a line can describe. -/
def Durable (m : NodeManager) : Prop := ∀ name n, m.lookup name = some n → n.Durable name

theorem Durable.readLine (durable : m.Durable) (line : String) : (m.readLine line).Durable := by
  cases read : Text.fields line with
  | nil => rwa [NodeManager.readLine, read]
  | cons name parts =>
    intro x n found
    rw [readLine_of_fields read] at found
    split at found
    case isTrue named =>
      obtain ⟨rfl, plain⟩ := named
      obtain rfl := Option.some.inj found
      have word := Text.word_of_mem_fields (read ▸ List.mem_cons_self : x ∈ Text.fields line)
      refine Node.Durable.applyLine ?_ parts
      cases known : m.lookup x with
      | some n => exact durable x n known
      | none =>
        exact ⟨⟨word.1, plain⟩, rfl, ⟨rfl, rfl, rfl⟩,
          fun k listed => absurd listed (AList.notMem_empty k)⟩
    case isFalse => exact durable x n found

theorem durable_recoverNodes (doc : String) : (recoverNodes ∅ doc).Durable :=
  List.foldlRecOn (motive := Durable) _ _ (fun _ _ found => by cases found)
    fun _ durable line _ => durable.readLine line

/-- What requests with names of one word each can make of the nodes. -/
def Legible (m : NodeManager) : Prop :=
  ∀ name n, m.lookup name = some n → Solid name ∧ n.Legible

def bodies (m : NodeManager) (order : RangeOrder) (names : List String) : List String :=
  names.map fun name => (m.lookup name).elim "" fun n => n.body name order

theorem serialize_eq (m : NodeManager) (order : RangeOrder) :
    m.serialize order = String.join ((m.bodies order (m.range order)).map (· ++ "\n")) := by
  rw [serialize, bodies, List.map_map]
  congr 1
  refine List.map_congr_left fun name listed => ?_
  obtain ⟨n, found⟩ := Assoc.exists_lookup ((Assoc.mem_range ..).mp listed)
  simp only [Function.comp, found, Option.elim_some]
  exact Node.line_eq name

theorem oneLine_bodies (legible : m.Legible) {names : List String}
    (known : ∀ name ∈ names, name ∈ m) :
    ∀ line ∈ m.bodies order names, Text.OneLine line := by
  intro line member
  obtain ⟨name, listed, rfl⟩ := List.mem_map.mp member
  obtain ⟨n, found⟩ := Assoc.exists_lookup (known name listed)
  rw [found, Option.elim_some, Node.body]
  refine (legible name n found).1.oneLine.append ?_
  intro broken
  simp only [String.toList_join, List.mem_flatMap, List.mem_map, exists_exists_and_eq_and,
    String.toList_append] at broken
  obtain ⟨part, here, inside⟩ := broken
  rcases List.mem_append.mp inside with blank | inside
  · exact absurd blank (by decide)
  · exact nomatch (Node.word_parts (legible name n found).2 part here).2 _ inside

def restored (order : RangeOrder) (n : Node) : Node :=
  (Node.newNode (Node.lineProcs (n.parts order))).applyLine (n.parts order)

theorem readLine_body (legible : m.Legible) (durable : m.Durable) (found : m.lookup name = some n)
    {t : NodeManager} (fresh : name ∉ t) (x : String) :
    (t.readLine (n.body name order)).lookup x =
      if x = name then some (restored order n) else t.lookup x := by
  have named := (durable name n found).named
  have read : Text.fields (n.body name order) = name :: n.parts order := by
    rw [Node.fields_body (legible name n found).2,
      Text.fields_of_word ((legible name n found).1.word named.1)]
    rfl
  rw [readLine_of_fields read, AList.lookup_eq_none.mpr fresh]
  simp only [named.2, and_true]
  rfl

/-- The loop over the lines of nodes that are not registered yet. -/
theorem foldl_bodies (legible : m.Legible) (durable : m.Durable) {names : List String}
    (known : ∀ name ∈ names, name ∈ m) (nodup : names.Nodup) {t : NodeManager}
    (fresh : ∀ name ∈ names, name ∉ t) (x : String) :
    ((m.bodies order names).foldl readLine t).lookup x =
      if x ∈ names then (m.lookup x).map (restored order) else t.lookup x := by
  induction names generalizing t with
  | nil => rfl
  | cons name names ih =>
    obtain ⟨apart, nodup⟩ := List.nodup_cons.mp nodup
    obtain ⟨first, known⟩ := List.forall_mem_cons.mp known
    obtain ⟨unknown, fresh⟩ := List.forall_mem_cons.mp fresh
    obtain ⟨n, found⟩ := Assoc.exists_lookup first
    have line (x : String) : (t.readLine (n.body name order)).lookup x =
        if x = name then some (restored order n) else t.lookup x :=
      readLine_body legible durable found unknown x
    have later : ∀ other ∈ names, other ∉ t.readLine (n.body name order) := by
      intro other listed
      rw [← AList.lookup_eq_none, line, if_neg (by rintro rfl; exact apart listed)]
      exact AList.lookup_eq_none.mpr (fresh other listed)
    have text : m.bodies order (name :: names) = n.body name order :: m.bodies order names := by
      simp [bodies, found]
    rw [text, List.foldl_cons, ih known nodup later, line]
    by_cases here : x = name
    · subst here
      simp [apart, found]
    · simp [here]

/-- The inventory of nodes that lines can describe is read back as it was. -/
theorem recoverNodes_serialize (legible : m.Legible) (durable : m.Durable)
    (found : m.lookup name = some n) :
    ∃ n', (recoverNodes ∅ (m.serialize order)).lookup name = some n' ∧ n.SameInventory n' := by
  have known : ∀ name ∈ m.range order, name ∈ m := fun name => (Assoc.mem_range ..).mp
  refine ⟨restored order n, ?_,
    Node.same_applyLine order (legible name n found).2 (durable name n found)⟩
  rw [recoverNodes, serialize_eq, Text.split_lines (oneLine_bodies legible known),
    List.foldl_append]
  show (List.foldl readLine ∅ _).lookup name = _
  rw [foldl_bodies legible durable known (Assoc.nodup_range order m)
    fun name _ => AList.notMem_empty name, if_pos ((Assoc.mem_range ..).mpr
      (Assoc.mem_of_lookup found)), found]
  rfl

theorem restores_iff (legible : m.Legible) :
    (∀ name n, m.lookup name = some n →
      ∃ n', (recoverNodes ∅ (m.serialize order)).lookup name = some n' ∧ n.SameInventory n') ↔
      m.Durable := by
  constructor
  · intro restores name n found
    obtain ⟨n', recovered, same⟩ := restores name n found
    exact (durable_recoverNodes _ name n' recovered).of_same same
  · intro durable name n found
    exact recoverNodes_serialize legible durable found

end NodeManager

/-- The names an attribute of a node brings in are words. -/
def Attr.Solid (a : Attr) : Prop :=
  (a.name = "queue" → Text.Solid a.value) ∧ (a.name = "resources_available" → Text.Solid a.resc)

instance (a : Attr) : Decidable a.Solid := inferInstanceAs (Decidable (_ ∧ _))

namespace Node.Legible
variable {n : Node}

theorem newNode (range : minInt ≤ np ∧ np ≤ maxInt) : (Node.newNode np).Legible where
  numProcs := range
  queue _ inside := nomatch inside
  groups := ⟨(fun _ listed => nomatch listed), List.nodup_nil⟩
  gres _ _ found := nomatch found

theorem applyState (legible : n.Legible) (value : String) : (n.applyState value).Legible := by
  unfold Node.applyState
  split <;> exact { legible with }

theorem applyAttr (legible : n.Legible) {a : Attr} (solid : a.Solid) : (n.applyAttr a).Legible := by
  unfold Node.applyAttr
  split
  case h_1 => exact legible.applyState a.value
  case h_2 => exact { legible with numProcs := scanInto_fits _ _ legible.numProcs }
  case h_3 => exact { legible with }
  case h_4 | h_5 =>
    exact { legible with
      groups := ⟨fun _ listed => Queue.item_of_mem_parseList listed, nodup_eraseDups _⟩ }
  case h_6 => exact { legible with }
  case h_7 key => exact { legible with queue := solid.1 key }
  case h_8 key =>
    split
    case h_1 v read =>
      obtain ⟨read, nonneg⟩ := Option.filter_eq_some_iff.mp read
      split
      case isTrue => exact legible
      case isFalse =>
        refine { legible with gres := ?_ }
        intro k w found
        rw [Assoc.lookup_insert_ite] at found
        split at found
        case isTrue same =>
          obtain rfl := Option.some.inj found
          exact ⟨same ▸ solid.2 key, of_decide_eq_true nonneg, (parseInt_fits read).2⟩
        case isFalse => exact legible.gres k w found
    case h_2 => exact legible
  case h_9 => exact { legible with }

theorem applyNodeAttrs (legible : n.Legible) {attrs : List Attr} (solid : ∀ a ∈ attrs, a.Solid) :
    (n.applyNodeAttrs attrs).Legible :=
  List.foldlRecOn (motive := Node.Legible) attrs _ legible
    fun _ legible a listed => legible.applyAttr (solid a listed)

theorem applyStatusItem (legible : n.Legible) (item : String) : (n.applyStatusItem item).Legible := by
  unfold Node.applyStatusItem
  split
  · exact legible
  · split
    case h_1 => exact { legible with }
    case h_2 => exact { legible with numProcs := scanInto_fits _ _ legible.numProcs }
    case h_3 => exact { legible with }
    case h_4 => exact { legible with }

theorem receive (legible : n.Legible) (now : Time) (msg : StatusMessage) :
    (n.receive now msg).Legible := by
  have items := List.foldlRecOn (motive := Node.Legible) msg.items Node.applyStatusItem
    (b := { n with momPort := msg.momPort, ip := msg.peerIP.getD n.ip })
    { legible with } fun _ legible item _ => legible.applyStatusItem item
  exact { items with }

end Node.Legible

namespace NodeManager.Legible
variable {m : NodeManager}

theorem register (legible : m.Legible) (named : Solid name) (range : minInt ≤ np ∧ np ≤ maxInt)
    {change : Node → Node} (kept : ∀ n : Node, n.Legible → (change n).Legible) :
    ((m.addNode name np).onNode name change).Legible := by
  intro x n found
  rw [register_lookup] at found
  split at found
  case isTrue same =>
    obtain rfl := Option.some.inj found
    refine ⟨same ▸ named, kept _ ?_⟩
    cases known : m.lookup name with
    | none => exact .newNode range
    | some n => exact (legible name n known).2
  case isFalse => exact legible x n found

theorem onNode (legible : m.Legible) {change : Node → Node}
    (kept : ∀ n : Node, n.Legible → (change n).Legible) : (m.onNode name change).Legible := by
  rw [NodeManager.onNode]
  cases known : m.lookup name with
  | none => exact legible
  | some n =>
    intro x n' found
    rw [Assoc.lookup_insert_ite] at found
    split at found
    case isTrue same =>
      obtain rfl := Option.some.inj found
      exact ⟨same ▸ (legible name n known).1, kept n (legible name n known).2⟩
    case isFalse => exact legible x n' found

theorem erase (legible : m.Legible) (name : String) : NodeManager.Legible (m.erase name) := by
  intro x n found
  rw [Assoc.lookup_erase_ite] at found
  split at found
  · cases found
  · exact legible x n found

end NodeManager.Legible

theorem requestedProcs_fits (attrs : List Attr) :
    minInt ≤ Server.requestedProcs attrs ∧ Server.requestedProcs attrs ≤ maxInt :=
  List.foldlRecOn (motive := fun np => minInt ≤ np ∧ np ≤ maxInt) _ _ (by decide)
    fun _ range a _ => scanInto_fits _ a.value range

/-- The steps that build the node table: requests of a manager on nodes and status messages,
which register nodes, with names of one word each. -/
def Step.BuildsNodes : Step → Prop
  | .request (.manager (.createNode name attrs)) => Solid name ∧ ∀ a ∈ attrs, a.Solid
  | .request (.manager (.setNode _ attrs)) => ∀ a ∈ attrs, a.Solid
  | .request (.manager (.deleteNode _)) => True
  | .statusMessage msg => Solid msg.hostname
  | _ => False

namespace Server
variable {s : Server}

/-- The node table is legible, and a registration gives a processor count that fits. -/
structure LegibleNodes (s : Server) : Prop where
  nodes : s.nodeMgr.Legible
  npDefault : minInt ≤ s.cfg.number "np_default" ∧ s.cfg.number "np_default" ≤ maxInt

namespace LegibleNodes

theorem handleISMessage (legible : s.LegibleNodes) (env : Env) {msg : StatusMessage}
    (named : Solid msg.hostname) : (s.handleISMessage env msg).LegibleNodes := by
  have received {t : Server} (legible : t.LegibleNodes) :
      (t.onNode msg.hostname (·.receive env.now msg)).LegibleNodes :=
    { legible with nodes := legible.nodes.onNode fun _ kept => kept.receive env.now msg }
  rw [Server.handleISMessage]
  refine received ?_
  split
  case isTrue => exact legible
  case isFalse =>
    rw [tryAutoRegisterNode]
    split
    case isTrue =>
      refine { legible with nodes := legible.nodes.register named ?_ fun _ kept => { kept with } }
      split
      · exact legible.npDefault
      · decide
    case isFalse => exact legible

theorem step (legible : s.LegibleNodes) (env : Env) {step : Step} (builds : step.BuildsNodes) :
    (s.step env step).LegibleNodes := by
  cases step with
  | statusMessage msg => exact legible.handleISMessage env builds
  | request r =>
    cases r with
    | manager command =>
      show (s.handleManager env command).server.LegibleNodes
      cases command with
      | createNode name attrs =>
        exact { legible with
          nodes := legible.nodes.register builds.1 (requestedProcs_fits attrs) fun _ kept =>
            kept.applyNodeAttrs builds.2 }
      | setNode name attrs =>
        rw [handleManager, manage]
        split
        · exact legible
        case h_2 changed =>
          obtain rfl := Option.some.inj (Option.ite_none_right_eq_some.mp changed).2
          exact { legible with
            nodes := legible.nodes.onNode fun _ kept => kept.applyNodeAttrs builds }
      | deleteNode name =>
        rw [handleManager, manage]
        split
        · exact legible
        case h_2 changed =>
          obtain rfl := Option.some.inj (Option.ite_none_right_eq_some.mp changed).2
          exact { legible with nodes := legible.nodes.erase name }
      | _ => exact builds.elim
    | _ => exact builds.elim
  | _ => exact builds.elim

theorem run (legible : s.LegibleNodes) {steps : List (Env × Step)}
    (builds : ∀ l ∈ steps, l.2.BuildsNodes) :
    (steps.foldl (fun s l => s.step l.1 l.2) s).LegibleNodes :=
  List.foldlRecOn (motive := LegibleNodes) steps _ legible fun _ legible l listed =>
    legible.step l.1 (builds l listed)

end LegibleNodes

def nodesAfterRestart (s : Server) (env : Env) : NodeManager :=
  (Server.new s.cfg.serverName (s.saveNodes env).store).recoverNodes.nodeMgr

def plainNodeRequest : Request :=
  .manager (.createNode "n1" [⟨"np", "4", "", false, 1⟩, ⟨"queue", "batch", "", false, 1⟩,
    ⟨"hostgroups", "gpu,fast", "", false, 1⟩, ⟨"resources_available", "2", "lic", true, 1⟩])

/-- A node with properties that an administrator has taken offline. -/
def offlineNodeRequest : Request :=
  .manager (.createNode "gpu-host" [⟨"properties", "gpu,fast", "", false, 1⟩,
    ⟨"state", "offline", "", false, 1⟩])

end Server

end OpenTorque.Pbs
