import OpenTorque.Core.Records
import OpenTorque.Server.Store

/-! The two implementations of the interface `Store`: files that are written beside their
place and renamed, and the tables of a database. Both represent the store of the server's
model. They answer alike as long as every job has both of its documents or none: a row of
the database has both from the start. -/
namespace OpenTorque.Pbs

/-- A directory of plain files. -/
abbrev Dir := Assoc String

namespace Dir

/-- `os.Rename` within the directory. -/
def rename (d : Dir) (old new : String) : Dir :=
  match d.lookup old with
  | none => d
  | some data => (d.erase old).insert new data

/-- Write to a file with the suffix `.new` and rename it. -/
def replace (d : Dir) (file data : String) : Dir :=
  Dir.rename (d.insert (file ++ ".new") data) (file ++ ".new") file

end Dir

structure FileStore where
  serverPriv : Dir := ∅
  queuesDir : Dir := ∅
  jobsDir : Dir := ∅

namespace FileStore

def loadServerDB (f : FileStore) : Option String := f.serverPriv.lookup "serverdb"

def saveServerDB (f : FileStore) (data : String) : FileStore :=
  { f with serverPriv := Dir.replace f.serverPriv "serverdb" data }

/-- Every file of the directory is the document of a queue. -/
def loadQueues (f : FileStore) : Assoc String := f.queuesDir

def saveQueue (f : FileStore) (name data : String) : FileStore :=
  { f with queuesDir := Dir.replace f.queuesDir name data }

def loadNodes (f : FileStore) : Option String := f.serverPriv.lookup "nodes"

def saveNodes (f : FileStore) (data : String) : FileStore :=
  { f with serverPriv := Dir.replace f.serverPriv "nodes" data }

/-- One entry of the directory in the loop of `LoadJobs`. -/
def loadJob (d : Dir) (out : Assoc String) (file : String) : Assoc String :=
  match Text.beforeSuffix ".JB" file, d.lookup file with
  | some id, some data => out.insert id data
  | _, _ => out

def loadJobs (f : FileStore) : Assoc String := f.jobsDir.keys.foldl (loadJob f.jobsDir) ∅

def saveJob (f : FileStore) (id attrs : String) : FileStore :=
  { f with jobsDir := Dir.replace f.jobsDir (id ++ ".JB") attrs }

def loadJobScript (f : FileStore) (id : String) : Option String := f.jobsDir.lookup (id ++ ".SC")

/-- The script is written in its place. -/
def saveJobScript (f : FileStore) (id data : String) : FileStore :=
  { f with jobsDir := f.jobsDir.insert (id ++ ".SC") data }

def deleteJob (f : FileStore) (id : String) : FileStore :=
  { f with jobsDir := (f.jobsDir.erase (id ++ ".JB")).erase (id ++ ".SC") }

end FileStore

/-- A row of `ot_jobs` with the defaults of its columns. -/
structure JobRow where
  attrs : String := ""
  script : String := ""

structure PostgresStore where
  otState : Assoc String := ∅
  otQueues : Assoc String := ∅
  otJobs : Assoc JobRow := ∅

namespace PostgresStore

def stateGet (p : PostgresStore) (kind : String) : Option String := p.otState.lookup kind

def statePut (p : PostgresStore) (kind data : String) : PostgresStore :=
  { p with otState := p.otState.insert kind data }

def loadServerDB (p : PostgresStore) : Option String := p.stateGet "serverdb"

def saveServerDB (p : PostgresStore) (data : String) : PostgresStore := p.statePut "serverdb" data

def loadNodes (p : PostgresStore) : Option String := p.stateGet "nodes"

def saveNodes (p : PostgresStore) (data : String) : PostgresStore := p.statePut "nodes" data

def loadQueues (p : PostgresStore) : Assoc String := p.otQueues

def saveQueue (p : PostgresStore) (name data : String) : PostgresStore :=
  { p with otQueues := p.otQueues.insert name data }

def loadJobs (p : PostgresStore) (id : String) : Option String :=
  (p.otJobs.lookup id).map (·.attrs)

def loadJobScript (p : PostgresStore) (id : String) : Option String :=
  (p.otJobs.lookup id).map (·.script)

/-- `INSERT … ON CONFLICT(id) DO UPDATE`: a new row has the defaults. -/
def upsert (p : PostgresStore) (id : String) (set : JobRow → JobRow) : PostgresStore :=
  { p with otJobs := p.otJobs.insert id (set ((p.otJobs.lookup id).getD {})) }

def saveJob (p : PostgresStore) (id attrs : String) : PostgresStore :=
  p.upsert id ({ · with attrs })

def saveJobScript (p : PostgresStore) (id script : String) : PostgresStore :=
  p.upsert id ({ · with script })

def deleteJob (p : PostgresStore) (id : String) : PostgresStore :=
  { p with otJobs := p.otJobs.erase id }

end PostgresStore

/-- The operations of the interface that change a store. -/
inductive StoreOp where
  | saveServerDB (data : String)
  | saveQueue (name data : String)
  | saveNodes (data : String)
  | saveJob (id attrs : String)
  | saveJobScript (id data : String)
  | deleteJob (id : String)
  deriving DecidableEq, Repr

def FileStore.apply (f : FileStore) : StoreOp → FileStore
  | .saveServerDB data => f.saveServerDB data
  | .saveQueue name data => f.saveQueue name data
  | .saveNodes data => f.saveNodes data
  | .saveJob id attrs => f.saveJob id attrs
  | .saveJobScript id data => f.saveJobScript id data
  | .deleteJob id => f.deleteJob id

def PostgresStore.apply (p : PostgresStore) : StoreOp → PostgresStore
  | .saveServerDB data => p.saveServerDB data
  | .saveQueue name data => p.saveQueue name data
  | .saveNodes data => p.saveNodes data
  | .saveJob id attrs => p.saveJob id attrs
  | .saveJobScript id data => p.saveJobScript id data
  | .deleteJob id => p.deleteJob id

def Store.apply (st : Store) : StoreOp → Store
  | .saveServerDB data => st.saveServerDB data
  | .saveQueue name data => st.saveQueue name data
  | .saveNodes data => st.saveNodes data
  | .saveJob id attrs => st.saveJob id attrs
  | .saveJobScript id data => st.saveJobScript id data
  | .deleteJob id => st.deleteJob id

/-- A file name to which none of the suffixes of the store belongs. -/
structure PlainName (name : String) : Prop where
  proper : name ≠ "" ∧ name ≠ "." ∧ name ≠ ".."
  single : '/' ∉ name.toList ∧ '\x00' ∉ name.toList
  unmarked : ∀ mark ∈ [".new", ".JB", ".SC"], Text.beforeSuffix mark name = none

instance (name : String) : Decidable (PlainName name) :=
  decidable_of_iff ((name ≠ "" ∧ name ≠ "." ∧ name ≠ "..") ∧
      ('/' ∉ name.toList ∧ '\x00' ∉ name.toList) ∧
      ∀ mark ∈ [".new", ".JB", ".SC"], Text.beforeSuffix mark name = none)
    ⟨fun ⟨proper, single, unmarked⟩ => ⟨proper, single, unmarked⟩,
      fun plain => ⟨plain.proper, plain.single, plain.unmarked⟩⟩

theorem PlainName.ne_append {name : String} (plain : PlainName name)
    (listed : mark ∈ [".new", ".JB", ".SC"]) (head : String) : name ≠ head ++ mark := by
  intro whole
  have marked := plain.unmarked mark listed
  rw [Text.beforeSuffix_eq_some.mpr whole] at marked
  cases marked

namespace StoreOp

/-- The names that an operation uses are plain. -/
def Plain : StoreOp → Prop
  | .saveServerDB _ | .saveNodes _ => True
  | .saveQueue name _ => PlainName name
  | .saveJob id _ | .saveJobScript id _ | .deleteJob id => PlainName id

instance : (op : StoreOp) → Decidable op.Plain
  | .saveServerDB _ | .saveNodes _ => inferInstanceAs (Decidable True)
  | .saveQueue name _ => inferInstanceAs (Decidable (PlainName name))
  | .saveJob id _ | .saveJobScript id _ | .deleteJob id =>
    inferInstanceAs (Decidable (PlainName id))

@[simp] def savesAttrs (id : String) : StoreOp → Bool
  | .saveJob x _ => x = id
  | _ => false

@[simp] def savesScript (id : String) : StoreOp → Bool
  | .saveJobScript x _ => x = id
  | _ => false

@[simp] def deletes (id : String) : StoreOp → Bool
  | .deleteJob x => x = id
  | _ => false

/-- A document that some of the operations save is kept: it was saved after the last
deletion of its job. -/
def kept (saves : String → StoreOp → Bool) (id : String) (ops : List StoreOp) : Bool :=
  ops.foldl (fun held op => !op.deletes id && (held || saves id op)) false

theorem kept_append {saves : String → StoreOp → Bool} {id : String} {ops : List StoreOp}
    {op : StoreOp} : kept saves id (ops ++ [op]) = true ↔
    op.deletes id = false ∧ (kept saves id ops = true ∨ saves id op = true) := by
  simp [kept]

end StoreOp

theorem Dir.replace_lookup (d : Dir) (file data x : String) : (Dir.replace d file data).lookup x =
    if x = file then some data else if x = file ++ ".new" then none else d.lookup x := by
  rw [Dir.replace, Dir.rename, AList.lookup_insert]
  simp only [Assoc.lookup_insert_ite, Assoc.lookup_erase_ite]
  split
  · rfl
  · split <;> rfl

/-- The files hold the documents of a store. -/
structure FileStore.Represents (f : FileStore) (st : Store) : Prop where
  backend : st.backend = .file
  serverDB : f.loadServerDB = st.serverDB
  nodes : f.loadNodes = st.nodes
  queues : ∀ name, f.loadQueues.lookup name = st.queues.lookup name
  attrs : ∀ id, f.jobsDir.lookup (id ++ ".JB") = st.jobs.lookup id
  script : ∀ id, f.loadJobScript id = st.scripts.lookup id

theorem PlainName.fileName (plain : PlainName name) : Store.fileName name = true := by
  have proper := plain.proper
  have single := plain.single
  simp_all [Store.fileName]

namespace FileStore
variable {f : FileStore} {st : Store}

theorem loadJob_lookup (d : Dir) (out : Assoc String) (file id : String) :
    (loadJob d out file).lookup id =
      if file = id ++ ".JB" then (d.lookup file).or (out.lookup id) else out.lookup id := by
  unfold loadJob
  split
  case h_1 name data marked found =>
    obtain rfl := Text.beforeSuffix_eq_some.mp marked
    rw [Assoc.lookup_insert_ite, found]
    by_cases same : id = name
    · rw [if_pos same, if_pos (by rw [same])]
      rfl
    · rw [if_neg same, if_neg fun both => same (Text.append_suffix_inj both).symm]
  case h_2 other =>
    split
    case isTrue whole =>
      cases found : d.lookup file with
      | none => rfl
      | some data => exact absurd found (other id data (Text.beforeSuffix_eq_some.mpr whole))
    case isFalse => rfl

theorem loadJobs_lookup (f : FileStore) (id : String) :
    f.loadJobs.lookup id = f.jobsDir.lookup (id ++ ".JB") := by
  have loop : ∀ (files : List String) (out : Assoc String),
      (files.foldl (loadJob f.jobsDir) out).lookup id =
        if id ++ ".JB" ∈ files then (f.jobsDir.lookup (id ++ ".JB")).or (out.lookup id)
        else out.lookup id := by
    intro files
    induction files with
    | nil => simp
    | cons file files ih =>
      intro out
      rw [List.foldl_cons, ih, loadJob_lookup]
      by_cases here : file = id ++ ".JB"
      · subst here
        simp [← Option.or_assoc]
      · simp [here, Ne.symm here]
  rw [loadJobs, loop, AList.lookup_empty, Option.or_none]
  split
  · rfl
  case isFalse absent =>
    exact (AList.lookup_eq_none.mpr fun known => absent (AList.mem_keys.mp known)).symm

namespace Represents

theorem empty : FileStore.Represents {} {} where
  backend := rfl
  serverDB := rfl
  nodes := rfl
  queues _ := rfl
  attrs _ := rfl
  script _ := rfl

section
variable (represents : f.Represents st)
include represents

theorem saveServerDB (data : String) :
    (f.saveServerDB data).Represents (st.saveServerDB data) :=
  { represents with
    serverDB := by rw [loadServerDB, FileStore.saveServerDB, Dir.replace_lookup, if_pos rfl]; rfl
    nodes := by
      rw [loadNodes, FileStore.saveServerDB, Dir.replace_lookup, if_neg (by decide),
        if_neg (by decide)]
      exact represents.nodes }

theorem saveNodes (data : String) :
    (f.saveNodes data).Represents (st.saveNodes data) :=
  { represents with
    nodes := by rw [loadNodes, FileStore.saveNodes, Dir.replace_lookup, if_pos rfl]; rfl
    serverDB := by
      rw [loadServerDB, FileStore.saveNodes, Dir.replace_lookup, if_neg (by decide),
        if_neg (by decide)]
      exact represents.serverDB }

theorem saveQueue (plain : PlainName name) (data : String) :
    (f.saveQueue name data).Represents (st.saveQueue name data) :=
  { represents with
    queues := by
      intro x
      rw [loadQueues, FileStore.saveQueue, Store.saveQueue, represents.backend, Dir.replace_lookup,
        if_pos plain.fileName, Assoc.lookup_insert_ite, Assoc.lookup_erase_ite, ← represents.queues]
      rfl }

theorem fill_eq (m : Assoc String) (id : String) :
    Store.fill st.backend m id = m := by
  rw [Store.fill, represents.backend, if_neg fun both => nomatch both.1]

theorem saveJob (id attrs : String) :
    (f.saveJob id attrs).Represents (st.saveJob id attrs) :=
  { represents with
    attrs := by
      intro x
      have beside : x ++ ".JB" ≠ id ++ ".JB" ++ ".new" :=
        Text.append_suffix_ne (by decide) (by decide) (by decide) _ _
      rw [FileStore.saveJob, Store.saveJob, Dir.replace_lookup, Assoc.lookup_insert_ite,
        if_neg beside, represents.attrs]
      exact if_congr ⟨Text.append_suffix_inj, fun same => by rw [same]⟩ rfl rfl
    script := by
      intro x
      have beside : x ++ ".SC" ≠ id ++ ".JB" ++ ".new" :=
        Text.append_suffix_ne (by decide) (by decide) (by decide) _ _
      have other : x ++ ".SC" ≠ id ++ ".JB" :=
        Text.append_suffix_ne (by decide) (by decide) (by decide) _ _
      rw [loadJobScript, FileStore.saveJob, Store.saveJob, Dir.replace_lookup, if_neg other,
        if_neg beside, represents.fill_eq]
      exact represents.script x }

theorem saveJobScript (id data : String) :
    (f.saveJobScript id data).Represents (st.saveJobScript id data) :=
  { represents with
    attrs := by
      intro x
      have other : x ++ ".JB" ≠ id ++ ".SC" :=
        Text.append_suffix_ne (by decide) (by decide) (by decide) _ _
      rw [FileStore.saveJobScript, Store.saveJobScript, Assoc.lookup_insert_ite, if_neg other,
        represents.fill_eq]
      exact represents.attrs x
    script := by
      intro x
      rw [loadJobScript, FileStore.saveJobScript, Store.saveJobScript, Assoc.lookup_insert_ite,
        Assoc.lookup_insert_ite, ← represents.script]
      exact if_congr ⟨Text.append_suffix_inj, fun same => by rw [same]⟩ rfl rfl }

theorem deleteJob (id : String) :
    (f.deleteJob id).Represents (st.deleteJob id) :=
  { represents with
    attrs := by
      intro x
      have other : x ++ ".JB" ≠ id ++ ".SC" :=
        Text.append_suffix_ne (by decide) (by decide) (by decide) _ _
      rw [FileStore.deleteJob, Store.deleteJob, Assoc.lookup_erase_ite, if_neg other,
        Assoc.lookup_erase_ite, Assoc.lookup_erase_ite, represents.attrs]
      exact if_congr ⟨Text.append_suffix_inj, fun same => by rw [same]⟩ rfl rfl
    script := by
      intro x
      have other : x ++ ".SC" ≠ id ++ ".JB" :=
        Text.append_suffix_ne (by decide) (by decide) (by decide) _ _
      rw [loadJobScript, FileStore.deleteJob, Store.deleteJob, Assoc.lookup_erase_ite,
        Assoc.lookup_erase_ite, if_neg other, Assoc.lookup_erase_ite, ← represents.script]
      exact if_congr ⟨Text.append_suffix_inj, fun same => by rw [same]⟩ rfl rfl }

theorem apply {op : StoreOp} (plain : op.Plain) :
    (f.apply op).Represents (st.apply op) := by
  cases op with
  | saveServerDB data => exact represents.saveServerDB data
  | saveQueue name data => exact represents.saveQueue plain data
  | saveNodes data => exact represents.saveNodes data
  | saveJob id attrs => exact represents.saveJob id attrs
  | saveJobScript id data => exact represents.saveJobScript id data
  | deleteJob id => exact represents.deleteJob id

theorem run {ops : List StoreOp} (plain : ∀ op ∈ ops, op.Plain) :
    (ops.foldl FileStore.apply f).Represents (ops.foldl Store.apply st) := by
  induction ops generalizing f st with
  | nil => exact represents
  | cons op ops ih =>
    obtain ⟨first, rest⟩ := List.forall_mem_cons.mp plain
    exact ih (represents.apply first) rest

end

end Represents
end FileStore

/-- The tables hold the documents of a store. -/
structure PostgresStore.Represents (p : PostgresStore) (st : Store) : Prop where
  backend : st.backend = .postgres
  serverDB : p.loadServerDB = st.serverDB
  nodes : p.loadNodes = st.nodes
  queues : ∀ name, p.loadQueues.lookup name = st.queues.lookup name
  attrs : ∀ id, p.loadJobs id = st.jobs.lookup id
  script : ∀ id, p.loadJobScript id = st.scripts.lookup id

theorem Store.fill_lookup (m : Assoc String) (id x : String) :
    (Store.fill .postgres m id).lookup x =
      if x = id then some ((m.lookup id).getD "") else m.lookup x := by
  rw [Store.fill]
  split
  case isTrue fresh => rw [Assoc.lookup_insert_ite, AList.lookup_eq_none.mpr fresh.2]; rfl
  case isFalse known =>
    obtain ⟨doc, found⟩ := Assoc.exists_lookup (not_not.mp fun absent => known ⟨rfl, absent⟩)
    split
    case isTrue same => rw [same, found]; rfl
    case isFalse => rfl

namespace PostgresStore
variable {p : PostgresStore} {st : Store}

theorem upsert_lookup (p : PostgresStore) (id x : String) (set : JobRow → JobRow) :
    (p.upsert id set).otJobs.lookup x =
      if x = id then some (set ((p.otJobs.lookup id).getD {})) else p.otJobs.lookup x :=
  Assoc.lookup_insert_ite ..

namespace Represents

theorem empty : PostgresStore.Represents {} { backend := .postgres } where
  backend := rfl
  serverDB := rfl
  nodes := rfl
  queues _ := rfl
  attrs _ := rfl
  script _ := rfl

section
variable (represents : p.Represents st)
include represents

theorem statePut (data : String) :
    (p.saveServerDB data).Represents (st.saveServerDB data) ∧
      (p.saveNodes data).Represents (st.saveNodes data) := by
  have other (kind x : String) : (p.statePut kind data).stateGet x =
      if x = kind then some data else p.stateGet x := Assoc.lookup_insert_ite ..
  refine ⟨{ represents with serverDB := ?_, nodes := ?_ },
    { represents with serverDB := ?_, nodes := ?_ }⟩
  · exact (other ..).trans (if_pos rfl)
  · exact ((other ..).trans (if_neg (by decide))).trans represents.nodes
  · exact ((other ..).trans (if_neg (by decide))).trans represents.serverDB
  · exact (other ..).trans (if_pos rfl)

theorem saveQueue (name data : String) :
    (p.saveQueue name data).Represents (st.saveQueue name data) :=
  { represents with
    queues := by
      intro x
      rw [loadQueues, PostgresStore.saveQueue, Store.saveQueue, represents.backend,
        Assoc.lookup_insert_ite, Assoc.lookup_insert_ite, ← represents.queues]
      rfl }

theorem saveJob (id attrs : String) :
    (p.saveJob id attrs).Represents (st.saveJob id attrs) :=
  { represents with
    attrs := by
      intro x
      rw [loadJobs, PostgresStore.saveJob, Store.saveJob, upsert_lookup, Assoc.lookup_insert_ite,
        ← represents.attrs]
      split <;> rfl
    script := by
      intro x
      rw [loadJobScript, PostgresStore.saveJob, Store.saveJob, upsert_lookup, represents.backend,
        Store.fill_lookup, ← represents.script, ← represents.script, loadJobScript, loadJobScript]
      split
      · cases p.otJobs.lookup id <;> rfl
      · rfl }

theorem saveJobScript (id data : String) :
    (p.saveJobScript id data).Represents (st.saveJobScript id data) :=
  { represents with
    attrs := by
      intro x
      rw [loadJobs, PostgresStore.saveJobScript, Store.saveJobScript, upsert_lookup,
        represents.backend, Store.fill_lookup, ← represents.attrs, ← represents.attrs, loadJobs,
        loadJobs]
      split
      · cases p.otJobs.lookup id <;> rfl
      · rfl
    script := by
      intro x
      rw [loadJobScript, PostgresStore.saveJobScript, Store.saveJobScript, upsert_lookup,
        Assoc.lookup_insert_ite, ← represents.script]
      split <;> rfl }

theorem deleteJob (id : String) :
    (p.deleteJob id).Represents (st.deleteJob id) :=
  { represents with
    attrs := by
      intro x
      rw [loadJobs, PostgresStore.deleteJob, Store.deleteJob, Assoc.lookup_erase_ite,
        Assoc.lookup_erase_ite, ← represents.attrs]
      split <;> rfl
    script := by
      intro x
      rw [loadJobScript, PostgresStore.deleteJob, Store.deleteJob, Assoc.lookup_erase_ite,
        Assoc.lookup_erase_ite, ← represents.script]
      split <;> rfl }

theorem apply (op : StoreOp) :
    (p.apply op).Represents (st.apply op) := by
  cases op with
  | saveServerDB data => exact (represents.statePut data).1
  | saveQueue name data => exact represents.saveQueue name data
  | saveNodes data => exact (represents.statePut data).2
  | saveJob id attrs => exact represents.saveJob id attrs
  | saveJobScript id data => exact represents.saveJobScript id data
  | deleteJob id => exact represents.deleteJob id

theorem run (ops : List StoreOp) :
    (ops.foldl PostgresStore.apply p).Represents (ops.foldl Store.apply st) := by
  induction ops generalizing p st with
  | nil => exact represents
  | cons op ops ih => exact ih (represents.apply op)

end

end Represents
end PostgresStore

namespace Store

/-- Two stores after the same operations, the first of files and the second of tables: a
job that has one document there has both here, and the other is empty. -/
structure Widened (files tables : Store) : Prop where
  file : files.backend = .file
  postgres : tables.backend = .postgres
  serverDB : files.serverDB = tables.serverDB
  nodes : files.nodes = tables.nodes
  queues : ∀ name, files.queues.lookup name = tables.queues.lookup name
  attrs : ∀ id, tables.jobs.lookup id =
    (files.jobs.lookup id).or ((files.scripts.lookup id).map fun _ => "")
  script : ∀ id, tables.scripts.lookup id =
    (files.scripts.lookup id).or ((files.jobs.lookup id).map fun _ => "")
  -- no queue is in the way of the file that is written beside another
  clear : ∀ name, name ++ ".new" ∉ files.queues

variable {files tables : Store}

theorem Widened.apply (widened : Widened files tables) {op : StoreOp} (plain : op.Plain) :
    Widened (files.apply op) (tables.apply op) := by
  have keep (m : Assoc String) (id : String) : fill files.backend m id = m := by
    rw [fill, widened.file, if_neg fun both => nomatch both.1]
  cases op with
  | saveServerDB data => exact { widened with serverDB := rfl }
  | saveNodes data => exact { widened with nodes := rfl }
  | saveQueue name data =>
    exact { widened with
      queues := by
        intro x
        simp only [Store.apply, saveQueue, widened.file, widened.postgres, if_pos plain.fileName,
          Assoc.lookup_insert_ite, Assoc.lookup_erase_ite, ← widened.queues]
        split
        · rfl
        · exact ite_eq_right_iff.mpr fun beside =>
            (beside ▸ AList.lookup_eq_none.mpr (widened.clear name)).symm
      clear := by
        intro x present
        simp only [Store.apply, saveQueue, widened.file, if_pos plain.fileName, AList.mem_insert,
          AList.mem_erase] at present
        rcases present with same | ⟨-, old⟩
        · exact plain.ne_append (by simp) x same.symm
        · exact widened.clear x old }
  | saveJob id attrs =>
    exact { widened with
      attrs := by
        intro x
        simp only [Store.apply, saveJob, Assoc.lookup_insert_ite, keep, widened.attrs]
        split <;> simp
      script := by
        intro x
        simp only [Store.apply, saveJob, Assoc.lookup_insert_ite, keep, widened.postgres,
          fill_lookup, widened.script]
        split
        case isTrue same =>
          subst same
          cases files.scripts.lookup x <;> cases files.jobs.lookup x <;> rfl
        case isFalse => rfl }
  | saveJobScript id data =>
    exact { widened with
      attrs := by
        intro x
        simp only [Store.apply, saveJobScript, Assoc.lookup_insert_ite, keep, widened.postgres,
          fill_lookup, widened.attrs]
        split
        case isTrue same =>
          subst same
          cases files.jobs.lookup x <;> cases files.scripts.lookup x <;> rfl
        case isFalse => rfl
      script := by
        intro x
        simp only [Store.apply, saveJobScript, Assoc.lookup_insert_ite, keep, widened.script]
        split <;> simp }
  | deleteJob id =>
    exact { widened with
      attrs := by
        intro x
        simp only [Store.apply, deleteJob, Assoc.lookup_erase_ite, widened.attrs]
        split <;> rfl
      script := by
        intro x
        simp only [Store.apply, deleteJob, Assoc.lookup_erase_ite, widened.script]
        split <;> rfl }

theorem Widened.run (widened : Widened files tables) {ops : List StoreOp}
    (plain : ∀ op ∈ ops, op.Plain) :
    Widened (ops.foldl Store.apply files) (ops.foldl Store.apply tables) := by
  induction ops generalizing files tables with
  | nil => exact widened
  | cons op ops ih =>
    obtain ⟨first, rest⟩ := List.forall_mem_cons.mp plain
    exact ih (widened.apply first) rest

theorem mem_apply {st : Store} (file : st.backend = .file) (op : StoreOp) (id : String) :
    (id ∈ (st.apply op).jobs ↔ op.deletes id = false ∧ (id ∈ st.jobs ∨ op.savesAttrs id)) ∧
      (id ∈ (st.apply op).scripts ↔
        op.deletes id = false ∧ (id ∈ st.scripts ∨ op.savesScript id)) := by
  have keep (m : Assoc String) (x : String) : fill st.backend m x = m := by
    rw [fill, file, if_neg fun both => nomatch both.1]
  cases op with
  | saveServerDB data => simp [Store.apply, saveServerDB]
  | saveNodes data => simp [Store.apply, saveNodes]
  | saveQueue name data => simp [Store.apply, saveQueue]
  | saveJob x attrs => simp [Store.apply, saveJob, keep, eq_comm, or_comm]
  | saveJobScript x data => simp [Store.apply, saveJobScript, keep, eq_comm, or_comm]
  | deleteJob x => simp [Store.apply, deleteJob, eq_comm]

theorem backend_run (st : Store) (ops : List StoreOp) :
    (ops.foldl Store.apply st).backend = st.backend := by
  induction ops generalizing st with
  | nil => rfl
  | cons op ops ih =>
    rw [List.foldl_cons, ih]
    cases op <;> rfl

theorem mem_run (ops : List StoreOp) (id : String) :
    (id ∈ (ops.foldl Store.apply {}).jobs ↔ StoreOp.kept StoreOp.savesAttrs id ops = true) ∧
      (id ∈ (ops.foldl Store.apply {}).scripts ↔
        StoreOp.kept StoreOp.savesScript id ops = true) := by
  -- the last operation decides, so the sequence grows at its end
  induction ops using List.reverseRecOn with
  | nil => simp [StoreOp.kept]
  | append_singleton ops op ih =>
    have last := mem_apply (backend_run {} ops) op id
    rw [ih.1, ih.2] at last
    rw [List.foldl_append, List.foldl_cons, List.foldl_nil, StoreOp.kept_append,
      StoreOp.kept_append]
    exact last

end Store

/-- What the two stores return is the same: the maps, and whether a document is there. -/
structure SameAnswers (f : FileStore) (p : PostgresStore) : Prop where
  serverDB : f.loadServerDB = p.loadServerDB
  nodes : f.loadNodes = p.loadNodes
  queues : ∀ name, f.loadQueues.lookup name = p.loadQueues.lookup name
  jobs : ∀ id, f.loadJobs.lookup id = p.loadJobs id
  script : ∀ id, PlainName id → f.loadJobScript id = p.loadJobScript id

theorem StoreOp.plain_of_kept {id : String} {ops : List StoreOp} (plain : ∀ op ∈ ops, op.Plain)
    (held : kept savesAttrs id ops = true) : PlainName id := by
  induction ops using List.reverseRecOn with
  | nil => cases held
  | append_singleton ops op ih =>
    rcases (kept_append.mp held).2 with before | now
    · exact ih (fun op member => plain op (List.mem_append_left _ member)) before
    · have proper := plain op (by simp)
      cases op with
      | saveJob x attrs => exact of_decide_eq_true now ▸ proper
      | _ => cases now

theorem or_map_eq_self {a b : Option String} :
    a = a.or (b.map fun _ => "") ↔ (b.isSome → a.isSome) := by
  cases a <;> cases b <;> simp

/-- After the same operations the two stores answer alike iff every job has both of its
documents or none. -/
theorem sameAnswers_iff (ops : List StoreOp) (plain : ∀ op ∈ ops, op.Plain) :
    SameAnswers (ops.foldl FileStore.apply {}) (ops.foldl PostgresStore.apply {}) ↔
      ∀ id, StoreOp.kept StoreOp.savesAttrs id ops = StoreOp.kept StoreOp.savesScript id ops := by
  have files := FileStore.Represents.empty.run plain
  have tables := PostgresStore.Represents.empty.run ops
  have start : Store.Widened {} { backend := .postgres } :=
    ⟨rfl, rfl, rfl, rfl, fun _ => rfl, fun _ => rfl, fun _ => rfl, fun _ => AList.notMem_empty _⟩
  have widened : Store.Widened (ops.foldl Store.apply {})
      (ops.foldl Store.apply { backend := .postgres }) := start.run plain
  have attrs (id : String) :
      (ops.foldl FileStore.apply {}).loadJobs.lookup id =
          (ops.foldl PostgresStore.apply {}).loadJobs id ↔
        (StoreOp.kept StoreOp.savesScript id ops → StoreOp.kept StoreOp.savesAttrs id ops) := by
    rw [FileStore.loadJobs_lookup, files.attrs, tables.attrs, widened.attrs, or_map_eq_self,
      AList.lookup_isSome, AList.lookup_isSome, (Store.mem_run ops id).1, (Store.mem_run ops id).2]
  have script (id : String) :
      (ops.foldl FileStore.apply {}).loadJobScript id =
          (ops.foldl PostgresStore.apply {}).loadJobScript id ↔
        (StoreOp.kept StoreOp.savesAttrs id ops → StoreOp.kept StoreOp.savesScript id ops) := by
    rw [files.script, tables.script, widened.script, or_map_eq_self,
      AList.lookup_isSome, AList.lookup_isSome, (Store.mem_run ops id).1, (Store.mem_run ops id).2]
  constructor
  · intro same id
    rw [Bool.eq_iff_iff]
    refine ⟨fun held => ?_, (attrs id).mp (same.jobs id)⟩
    exact (script id).mp (same.script id (StoreOp.plain_of_kept plain held)) held
  · intro both
    exact {
      serverDB := files.serverDB.trans (widened.serverDB.trans tables.serverDB.symm)
      nodes := files.nodes.trans (widened.nodes.trans tables.nodes.symm)
      queues := fun name =>
        (files.queues name).trans ((widened.queues name).trans (tables.queues name).symm)
      jobs := fun id => (attrs id).mpr (both id ▸ fun held => held)
      script := fun id _ => (script id).mpr (both id ▸ fun held => held) }

/-- A job that is submitted with its script and one that is deleted. -/
theorem sameAnswers_of_both_documents :
    let ops : List StoreOp := [.saveQueue "batch" "enabled=True\n", .saveJob "1.server" "state=1\n",
      .saveJobScript "1.server" "date\n", .saveJob "2.server" "state=1\n", .deleteJob "2.server"]
    (∀ op ∈ ops, op.Plain) ∧
      SameAnswers (ops.foldl FileStore.apply {}) (ops.foldl PostgresStore.apply {}) := by
  have plain : ∀ op ∈ ([.saveQueue "batch" "enabled=True\n", .saveJob "1.server" "state=1\n",
      .saveJobScript "1.server" "date\n", .saveJob "2.server" "state=1\n",
      .deleteJob "2.server"] : List StoreOp), op.Plain := by decide +kernel
  refine ⟨plain, (sameAnswers_iff _ plain).mpr fun id => ?_⟩
  by_cases first : "1.server" = id <;> by_cases second : "2.server" = id <;>
    simp [StoreOp.kept, first, second]

/-- A job that is saved without a script: the row has an empty one, the directory has none. -/
theorem script_only_in_tables :
    let ops : List StoreOp := [.saveJob "1.server" "state=1\n"]
    (∀ op ∈ ops, op.Plain) ∧
      (ops.foldl FileStore.apply {}).loadJobScript "1.server" = none ∧
      (ops.foldl PostgresStore.apply {}).loadJobScript "1.server" = some "" ∧
      ¬ SameAnswers (ops.foldl FileStore.apply {}) (ops.foldl PostgresStore.apply {}) := by
  have plain : PlainName "1.server" := by decide +kernel
  refine ⟨by simpa [StoreOp.Plain] using plain, by decide +kernel, by decide +kernel, ?_⟩
  intro same
  have answer := same.script "1.server" plain
  revert answer
  decide +kernel

end OpenTorque.Pbs
