import Mathlib.Logic.Function.Basic
import OpenTorque.Core.Transition

/-! Leader election over one PostgreSQL lease row. Every server runs `haLeaderLoop`; a
call of `TryAcquireLease` reads the clock, writes the row and reads it back in
separate steps, any of which may fail, and only then is the local flag set. -/
namespace OpenTorque.HA
open Transition

/-- The row of `ot_lease`; times are Unix seconds. -/
structure Lease where
  holder : String
  heartbeat : Int
  expires : Int
  deriving DecidableEq, Repr

/-- Where a server is inside `TryAcquireLease`. -/
inductive Phase where
  | waiting
  | stamped (now : Int)
  | written (now : Int)
  | answered (acquired : Bool)
  deriving DecidableEq, Repr

/-- One server: its flag `haActive` and its pending lease call. -/
structure Master where
  active : Bool := false
  phase : Phase := .waiting
  deriving DecidableEq, Repr

structure Cluster where
  clock : Int
  row : Option Lease
  masters : String → Master

def Cluster.initial (clock : Int) (row : Option Lease) : Cluster := ⟨clock, row, fun _ => {}⟩

/-- The lease lasts ten seconds and a call gives up after five. -/
def ttl : Int := 10
def callTimeout : Int := 5

/-- `INSERT … ON CONFLICT(k) DO UPDATE … WHERE expires < now OR holder = me`. -/
def upsert (row : Option Lease) (holder : String) (now : Int) : Option Lease :=
  match row with
  | none => some ⟨holder, now, now + ttl⟩
  | some r =>
    if r.expires < now ∨ r.holder = holder then some ⟨holder, now, now + ttl⟩ else some r

def holds (row : Option Lease) (holder : String) : Bool := row.any (·.holder = holder)

def Cluster.set (c : Cluster) (h : String) (m : Master) : Cluster :=
  { c with masters := Function.update c.masters h m }

def Cluster.enter (c : Cluster) (h : String) (phase : Phase) : Cluster :=
  c.set h { c.masters h with phase }

inductive Event where
  | advance (seconds : Nat)
  | tick (h : String)
  | exec (h : String)
  | select (h : String)
  | fail (h : String)
  | settle (h : String)
  | restart (h : String)
  deriving DecidableEq, Repr

/-- One step of the cluster; a step that is not enabled changes nothing. -/
def Cluster.next (c : Cluster) : Event → Cluster
  | .advance seconds => { c with clock := c.clock + seconds }
  | .tick h =>
    match (c.masters h).phase with
    | .waiting => c.enter h (.stamped c.clock)
    | _ => c
  | .exec h =>
    match (c.masters h).phase with
    | .stamped now => { c.enter h (.written now) with row := upsert c.row h now }
    | _ => c
  | .select h =>
    match (c.masters h).phase with
    | .written now =>
      if c.clock ≤ now + callTimeout then c.enter h (.answered (holds c.row h)) else c
    | _ => c
  | .fail h =>
    match (c.masters h).phase with
    | .stamped _ | .written _ => c.enter h .waiting
    | _ => c
  -- both compare-and-swaps of the loop leave the flag equal to the answer
  | .settle h =>
    match (c.masters h).phase with
    | .answered acquired => c.set h ⟨acquired, .waiting⟩
    | _ => c
  | .restart h => c.set h {}

/-- Two servers are never active while the row is unexpired and held by one of them. -/
def Cluster.Exclusive (c : Cluster) : Prop :=
  ∀ r, c.row = some r → c.clock ≤ r.expires → ∀ a b, a ≠ b →
    (c.masters a).active = true → (c.masters b).active = true → r.holder ≠ a ∧ r.holder ≠ b

/-- A server that is active, or has won the lease and is about to be. -/
def Master.leading (m : Master) : Bool := m.active || m.phase = .answered true

/-- The clock does not pass the end of a lease whose holder is leading. -/
def Cluster.Renewed (c : Cluster) : Event → Prop
  | .advance seconds =>
    match c.row with
    | none => True
    | some r => (c.masters r.holder).leading = true → c.clock + seconds ≤ r.expires
  | _ => True

instance (c : Cluster) : (e : Event) → Decidable (c.Renewed e)
  | .advance _ => by unfold Cluster.Renewed; cases c.row <;> infer_instance
  | .tick _ | .exec _ | .select _ | .fail _ | .settle _ | .restart _ =>
    inferInstanceAs (Decidable True)

/-- The row is a lease of `h` that is running and no longer than a full term. -/
def Cluster.Leases (c : Cluster) (h : String) : Prop :=
  ∃ r, c.row = some r ∧ r.holder = h ∧ c.clock ≤ r.expires ∧ r.expires ≤ c.clock + ttl

structure Cluster.Fenced (c : Cluster) : Prop where
  leading : ∀ h, (c.masters h).leading = true → c.Leases h
  stamped_past : ∀ h t, (c.masters h).phase = .stamped t → t ≤ c.clock
  written_past : ∀ h t, (c.masters h).phase = .written t → t ≤ c.clock
  renewal_later : ∀ h t r, (c.masters h).active = true → (c.masters h).phase = .stamped t →
    c.row = some r → r.expires ≤ t + ttl
  written_row : ∀ h t r, (c.masters h).phase = .written t → c.row = some r → r.holder = h →
    r.expires = t + ttl

section Steps
variable {c : Cluster}

theorem set_same (h : String) (m : Master) : (c.set h m).masters h = m := by
  simp [Cluster.set]

theorem set_other (h : String) (m : Master) (different : k ≠ h) :
    (c.set h m).masters k = c.masters k := by simp [Cluster.set, different]

theorem upsert_cases (row : Option Lease) (h : String) (now : Int) :
    upsert row h now = some ⟨h, now, now + ttl⟩ ∨
      ∃ r, row = some r ∧ upsert row h now = some r ∧ now ≤ r.expires ∧ r.holder ≠ h := by
  unfold upsert
  cases row with
  | none => exact .inl rfl
  | some r =>
    by_cases free : r.expires < now ∨ r.holder = h
    · exact .inl (by simp only [if_pos free])
    · refine .inr ⟨r, rfl, by simp only [if_neg free], ?_⟩
      rw [not_or] at free
      exact ⟨by omega, free.2⟩

namespace Cluster.Fenced

theorem initial (clock : Int) (row : Option Lease) : (Cluster.initial clock row).Fenced := by
  constructor <;> simp [Cluster.initial, Master.leading]

/-- A change of one server's local state alone, after which it leads only if it did
before or holds a running lease. -/
theorem set (fenced : c.Fenced) (h : String) (m : Master)
    (leading : m.leading = true → c.Leases h)
    (stamped : ∀ t, m.phase = .stamped t → t = c.clock)
    (written : ∀ t, m.phase ≠ .written t) : (c.set h m).Fenced where
  leading k leads := by
    by_cases same : k = h
    · subst same
      rw [set_same] at leads
      exact leading leads
    · rw [set_other h m same] at leads
      exact fenced.leading k leads
  stamped_past k t at_ := by
    by_cases same : k = h
    · subst same
      rw [set_same] at at_
      exact Int.le_of_eq (stamped t at_)
    · rw [set_other h m same] at at_
      exact fenced.stamped_past k t at_
  written_past k t at_ := by
    by_cases same : k = h
    · subst same
      rw [set_same] at at_
      exact absurd at_ (written t)
    · rw [set_other h m same] at at_
      exact fenced.written_past k t at_
  renewal_later k t r active at_ row := by
    by_cases same : k = h
    · subst same
      rw [set_same] at active at_
      obtain ⟨r', row', _, _, upper⟩ := leading (by simp [Master.leading, active])
      rw [stamped t at_]
      cases row.symm.trans row'
      exact upper
    · rw [set_other h m same] at active at_
      exact fenced.renewal_later k t r active at_ row
  written_row k t r at_ row holder := by
    by_cases same : k = h
    · subst same
      rw [set_same] at at_
      exact absurd at_ (written t)
    · rw [set_other h m same] at at_
      exact fenced.written_row k t r at_ row holder

theorem advance (fenced : c.Fenced) (seconds : Nat) (renewed : c.Renewed (.advance seconds)) :
    (c.next (.advance seconds)).Fenced where
  __ := fenced
  leading h leads := by
    obtain ⟨r, row, rfl, running, upper⟩ := fenced.leading h leads
    simp only [Cluster.Renewed, row] at renewed
    refine ⟨r, row, rfl, renewed leads, ?_⟩
    simp only [Cluster.next]
    omega
  stamped_past h t at_ := Int.le_trans (fenced.stamped_past h t at_) (Int.le_add_of_nonneg_right (by omega))
  written_past h t at_ := Int.le_trans (fenced.written_past h t at_) (Int.le_add_of_nonneg_right (by omega))

/-- The write of a stamped call: a leading server other than the caller keeps its
row, because its lease ends no earlier than any stamp taken so far. -/
theorem exec (fenced : c.Fenced) (h : String) (now : Int)
    (at_ : (c.masters h).phase = .stamped now) :
    ({ c.enter h (.written now) with row := upsert c.row h now } : Cluster).Fenced := by
  have past := fenced.stamped_past h now at_
  have others : ∀ k, k ≠ h → (c.masters k).leading = true → upsert c.row h now = c.row := by
    intro k different leads
    obtain ⟨r, row, holder, running, _⟩ := fenced.leading k leads
    rcases upsert_cases c.row h now with taken | ⟨r', row', kept, _⟩
    · rw [row, upsert, if_neg]
      rw [not_or]
      exact ⟨by omega, fun same => different (holder.symm.trans same)⟩
    · rw [kept, row']
  constructor
  · intro k leads
    by_cases same : k = h
    · subst same
      simp only [Cluster.enter, set_same, Master.leading, reduceCtorEq, decide_false,
        Bool.or_false] at leads
      obtain ⟨r, row, holder, running, upper⟩ := fenced.leading k (by simp [Master.leading, leads])
      have later := fenced.renewal_later k now r leads at_ row
      refine ⟨⟨k, now, now + ttl⟩, ?_, rfl, ?_, ?_⟩
      · simp only [row, upsert, holder, or_true, if_true]
      · exact Int.le_trans running later
      · simp only [Cluster.enter, Cluster.set]
        omega
    · simp only [Cluster.enter, set_other h _ same] at leads
      unfold Cluster.Leases
      simp only [others k same leads]
      exact fenced.leading k leads
  · intro k t stamped
    by_cases same : k = h
    · subst same
      simp [Cluster.enter, set_same] at stamped
    · simp only [Cluster.enter, set_other h _ same] at stamped
      exact fenced.stamped_past k t stamped
  · intro k t written
    by_cases same : k = h
    · subst same
      simp only [Cluster.enter, set_same, Phase.written.injEq] at written
      exact written ▸ past
    · simp only [Cluster.enter, set_other h _ same] at written
      exact fenced.written_past k t written
  · intro k t r active stamped row
    by_cases same : k = h
    · subst same
      simp [Cluster.enter, set_same] at stamped
    · simp only [Cluster.enter, set_other h _ same] at active stamped
      rw [others k same (by simp [Master.leading, active])] at row
      exact fenced.renewal_later k t r active stamped row
  · intro k t r written row holder
    rcases upsert_cases c.row h now with taken | ⟨r', row', kept, _, foreign⟩
    · rw [taken] at row
      cases row
      dsimp only at holder
      subst holder
      simp only [Cluster.enter, set_same, Phase.written.injEq] at written
      rw [written]
    · rw [kept] at row
      cases row
      have same : k ≠ h := fun same => foreign (holder.trans same)
      simp only [Cluster.enter, set_other h _ same] at written
      exact fenced.written_row k t r written row' holder

theorem next (fenced : c.Fenced) (e : Event) (renewed : c.Renewed e) : (c.next e).Fenced := by
  have still : ∀ h phase, phase ≠ .answered true →
      ({ c.masters h with phase } : Master).leading = true → c.Leases h := by
    intro h phase other leads
    apply fenced.leading
    simp only [Master.leading, other, decide_false, Bool.or_false] at leads
    simp [Master.leading, leads]
  cases e with
  | advance seconds => exact fenced.advance seconds renewed
  | tick h =>
    simp only [Cluster.next]
    split
    · exact fenced.set h _ (still h _ (by simp)) (by simp) (by simp)
    · exact fenced
  | exec h =>
    simp only [Cluster.next]
    split
    · exact fenced.exec h _ (by assumption)
    · exact fenced
  | select h =>
    simp only [Cluster.next]
    split
    case h_2 => exact fenced
    case h_1 now at_ =>
      split
      case isFalse => exact fenced
      case isTrue quick =>
        refine fenced.set h _ (fun leads => ?_) (by simp) (by simp)
        by_cases active : (c.masters h).active = true
        · exact fenced.leading h (by simp [Master.leading, active])
        · simp only [Master.leading, active, Bool.false_or, Phase.answered.injEq,
            decide_eq_true_eq, holds, Option.any_eq_true] at leads
          obtain ⟨r, row, holder⟩ := leads
          have expires := fenced.written_row h now r at_ row holder
          have past := fenced.written_past h now at_
          refine ⟨r, row, holder, ?_, ?_⟩
          · rw [expires]
            simp only [ttl, callTimeout] at quick ⊢
            omega
          · omega
  | fail h =>
    simp only [Cluster.next]
    split
    · exact fenced.set h _ (still h _ (by simp)) (by simp) (by simp)
    · exact fenced.set h _ (still h _ (by simp)) (by simp) (by simp)
    · exact fenced
  | settle h =>
    simp only [Cluster.next]
    split
    case h_2 => exact fenced
    case h_1 acquired at_ =>
      refine fenced.set h _ (fun leads => ?_) (by simp) (by simp)
      simp only [Master.leading, reduceCtorEq, decide_false, Bool.or_false] at leads
      exact fenced.leading h (by simp [Master.leading, at_, leads])
  | restart h => exact fenced.set h _ (by simp [Master.leading]) (by simp) (by simp)

theorem exclusive (fenced : c.Fenced) : c.Exclusive := by
  intro r row _ a b different activeA activeB
  obtain ⟨rA, rowA, holderA, _⟩ := fenced.leading a (by simp [Master.leading, activeA])
  obtain ⟨rB, rowB, holderB, _⟩ := fenced.leading b (by simp [Master.leading, activeB])
  cases rowA.symm.trans rowB
  exact absurd (holderA.symm.trans holderB) different

end Cluster.Fenced
end Steps

/-- In every run in which the clock never passes the end of a lease whose holder is
active or about to be, no two servers are active under a running lease of one of
them. The first row may be anything. -/
theorem lease_exclusive_of_renewed (clock : Int) (row : Option Lease) (events : List Event)
    (renewed : Along Cluster.next Cluster.Renewed (Cluster.initial clock row) events) :
    (events.foldl Cluster.next (Cluster.initial clock row)).Exclusive :=
  (renewed.invariant (I := Cluster.Fenced) (fun _ e fenced ok => fenced.next e ok)
    (Cluster.Fenced.initial clock row)).exclusive

def acquire (h : String) : List Event := [.tick h, .exec h, .select h, .settle h]

/-- One server takes the lease and renews it in time; the other stays out. -/
def renewedRun : List Event :=
  acquire "a" ++ [.advance 3] ++ acquire "b" ++ acquire "a" ++ [.advance 10]

theorem lease_exclusive_of_renewed_run :
    Along Cluster.next Cluster.Renewed (Cluster.initial 0 none) renewedRun ∧
      (renewedRun.foldl Cluster.next (Cluster.initial 0 none)).Exclusive :=
  have renewed : Along Cluster.next Cluster.Renewed (Cluster.initial 0 none) renewedRun := by
    decide
  ⟨renewed, lease_exclusive_of_renewed 0 none _ renewed⟩

/-- The renewal of an active server fails; eleven seconds after its last success
another one takes the expired lease. -/
def lapsedRun : List Event :=
  acquire "a" ++ [.advance 3, .tick "a", .fail "a", .advance 8] ++ acquire "b"

theorem two_active_after_failed_renewal :
    ¬ (lapsedRun.foldl Cluster.next (Cluster.initial 0 none)).Exclusive := by
  intro exclusive
  exact (exclusive ⟨"b", 11, 21⟩ (by decide) (by decide) "a" "b" (by decide) (by decide)
    (by decide)).2 rfl

end OpenTorque.HA
