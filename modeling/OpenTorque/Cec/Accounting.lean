import OpenTorque.Cec.Ownership

/-! The counters of a pool against the sets they count. `Running` and `Inflight` are
adjusted beside `Owned` and `Provisioning`, never computed from them; they agree as
long as no node-down event lowers `Running` and no sweep destroys a VM that has left
`Provisioning`. The size limit of a pool is kept by the counters and so rests on the
same two conditions. -/
namespace OpenTorque.Cec
open Transition

/-- The step leaves the counters of the pool of `q` in line with its sets: a node-down
event finds no running node to take off, and the stamps that have timed out belong to
VMs that still boot. -/
def Pool.Tracked (p : Pool) (q : String) (inbox : List Event) (env : Env) : Action → Prop
  | .receive => ∀ ev ∈ inbox.head?, ev.queue = q → ev.kind = .nodeDown → p.running ≤ 0
  | .reclaimIdle =>
    ∀ vmID ∈ p.provisionedAt, p.timedOut env.now vmID = true → vmID ∈ p.provisioning
  | _ => True

instance (p : Pool) (q : String) (inbox : List Event) (env : Env) :
    (a : Action) → Decidable (p.Tracked q inbox env a)
  | .receive => inferInstanceAs (Decidable (∀ ev ∈ inbox.head?, _))
  | .reclaimIdle => inferInstanceAs (Decidable (∀ vmID ∈ p.provisionedAt, _))
  | .setNodeController | .send _ | .registerNodesUp .. | .registerNodesIdle ..
  | .syncQueuedJobs .. => inferInstanceAs (Decidable True)

section Moves
variable {s : Fleet} {m : Move} {c : Controller} {q id : String} {a : Action} {env : Env}
  {old new : List String}

/-- What `Tracked` says of the moves themselves. -/
def Fleet.TracksMove (s : Fleet) : Move → Prop
  | .down => s.running ≤ 0
  | .destroy id => id ∈ s.booting
  | _ => True

theorem Caused.tracksMove (caused : Caused env c q a s m)
    (tracked : ∀ p, c.pools.lookup q = some p → p.Tracked q c.events env a) :
    s.TracksMove m := by
  cases caused with
  | down head here kind before =>
    show s.running ≤ 0
    rw [before]
    cases found : c.pools.lookup q with
    | none => exact le_rfl
    | some p => exact tracked p found _ (by rw [head]; rfl) here kind
  | expire found late kept =>
    exact kept (tracked _ found _ (timedOut_stamped late) late)
  | cancel booting => exact booting
  | configure | resume | issue | up | idle | busy | release | suspend => trivial

/-- The counters are the sizes of the sets they stand for. -/
structure Fleet.Exact (s : Fleet) : Prop where
  inflight : s.inflight = s.booting.card
  running : s.running = s.owned.card

theorem decrement_natCast (n : Nat) : decrement n = (n - 1 : Nat) := by
  unfold decrement
  split <;> omega

theorem Fleet.Exact.release (exact : s.Exact) (owned : id ∈ s.owned) : (s.release id).Exact where
  inflight := exact.inflight
  running := by
    simp only [Fleet.release, exact.running, decrement_natCast, Finset.card_erase_of_mem owned]

theorem Fleet.Exact.step (exact : s.Exact) (apart : s.Separated old new)
    (caused : Caused env c q a s m) (tracks : s.TracksMove m)
    (known : ∀ p, c.pools.lookup q = some p → p.Separated old)
    (issues : (c.step env a).2.flatMap Call.issues = new)
    (fresh : ∀ id ∈ new, id ∉ old) (distinct : new.Nodup) : (s.step m).Exact := by
  have inflight := exact.inflight
  have running := exact.running
  cases caused with
  | configure | idle | busy => exact ⟨inflight, running⟩
  | down =>
    refine ⟨inflight, ?_⟩
    have idle : decrement s.running = s.running := if_neg (not_lt.mpr tracks)
    exact idle.trans running
  | resume suspended =>
    have asleep : _ ∉ s.booting := fun booting => apart.booting_not_suspended _ booting suspended
    refine ⟨?_, running⟩
    simp only [Fleet.step, Finset.card_insert_of_notMem asleep, inflight]
    omega
  | @issue request vms _ _ issued _ prior =>
    have same : vms.map (·.id) = new := issued.symm.trans issues
    refine ⟨?_, running⟩
    have disjoint : Disjoint s.booting new.toFinset := by
      refine Finset.disjoint_left.mpr fun id booting added => ?_
      obtain ⟨p, found, member⟩ := prior id booting
      refine fresh id (List.mem_toFinset.mp added) ?_
      exact member.elim ((known p found).provisioning_issued id)
        ((known p found).hibernated_issued id)
    simp only [Fleet.step, same, Finset.card_union_of_disjoint disjoint,
      List.toFinset_card_of_nodup distinct, inflight]
    omega
  | up booting =>
    have absent := apart.booting_not_owned _ booting
    constructor
    · simp only [Fleet.step, inflight, decrement_natCast, Finset.card_erase_of_mem booting]
    · simp only [Fleet.step, running, Finset.card_insert_of_notMem absent]
      omega
  | cancel | expire =>
    refine ⟨?_, running⟩
    simp only [Fleet.step, inflight, decrement_natCast, Finset.card_erase_of_mem tracks]
  | release _ idle => exact exact.release (apart.idle_owned _ idle)
  | suspend idle =>
    have gone := exact.release (apart.idle_owned _ idle)
    exact ⟨gone.inflight, gone.running⟩

/-- Limits that a configuration may set: `0 ≤ MinNodes ≤ MaxNodes`, and `MaxNodes` is a positive
`int`. -/
structure Limits (lo hi : Int) : Prop where
  nonneg : 0 ≤ lo
  ordered : lo ≤ hi
  positive : 0 < hi
  fits : hi ≤ maxInt

/-- The counters are at least the sizes of the sets and stay below the size limit. -/
structure Fleet.Capped (lo hi : Int) (s : Fleet) : Prop where
  minNodes : s.minNodes = lo
  maxNodes : s.maxNodes = hi
  booting : s.booting.card ≤ s.inflight
  owned : s.owned.card ≤ s.running
  total : s.running + s.inflight ≤ hi
  idle_owned : ∀ id ∈ s.idle, id ∈ s.owned

theorem Fleet.Capped.release (capped : s.Capped lo hi) (idle : id ∈ s.idle) :
    (s.release id).Capped lo hi := by
  have owned := capped.idle_owned id idle
  have size := capped.owned
  have some : 0 < s.owned.card := Finset.card_pos.mpr ⟨id, owned⟩
  have lowered : decrement s.running = s.running - 1 := if_pos (by omega)
  refine ⟨capped.minNodes, capped.maxNodes, capped.booting, ?_, ?_, fun k member => ?_⟩
  · simp only [Fleet.release, lowered, Finset.card_erase_of_mem owned]
    omega
  · have := capped.total
    simp only [Fleet.release, lowered]
    omega
  · obtain ⟨different, idle⟩ := Finset.mem_erase.mp member
    exact Finset.mem_erase.mpr ⟨different, capped.idle_owned k idle⟩

theorem Fleet.Capped.unboot (capped : s.Capped lo hi) (booting : id ∈ s.booting) :
    decrement s.inflight = s.inflight - 1 ∧ ((s.booting.erase id).card : Int) ≤ s.inflight - 1 := by
  have size := capped.booting
  have some : 0 < s.booting.card := Finset.card_pos.mpr ⟨id, booting⟩
  rw [Finset.card_erase_of_mem booting]
  exact ⟨if_pos (by omega), by omega⟩

/-- An answer of the provider is no longer than the request. -/
def Call.Modest : Call → Prop
  | .ensure request (.ok vms) => vms.length ≤ request.count
  | _ => True

theorem Fleet.Capped.step (limits : Limits lo hi) (capped : s.Capped lo hi)
    (caused : Caused env c q a s m) (tracks : s.TracksMove m)
    (modest : ∀ call ∈ (c.step env a).2, call.Modest)
    (carried : ∀ ev ∈ c.events, ev.queue = q → ev.minNodes = lo ∧ ev.maxNodes = hi) :
    (s.step m).Capped lo hi := by
  have roomy : ∀ n, s.Room n → s.running + s.inflight + n ≤ hi := by
    intro n room
    rw [Fleet.Room, capped.minNodes, capped.maxNodes] at room
    exact room limits.positive ⟨limits.nonneg, limits.ordered⟩ (capped.total.trans limits.fits)
  have total := capped.total
  cases caused with
  | configure head here =>
    obtain ⟨low, high⟩ := carried _ (by simp [head]) here
    have := capped.minNodes
    have := capped.maxNodes
    refine { capped with minNodes := ?_, maxNodes := ?_ } <;> simp only [Fleet.step] <;>
      split <;> assumption
  | down =>
    have same : decrement s.running = s.running := if_neg (not_lt.mpr tracks)
    have kept : s.step .down = s := by simp only [Fleet.step, same]
    rwa [kept]
  | busy => exact { capped with
      idle_owned := fun k member => capped.idle_owned k (Finset.mem_of_mem_erase member) }
  | idle owned =>
    refine { capped with idle_owned := fun k member => ?_ }
    rcases Finset.mem_insert.mp member with rfl | idle
    · exact owned
    · exact capped.idle_owned k idle
  | @resume _ id _ room =>
    have := roomy 1 room
    have := capped.booting
    have := Finset.card_insert_le id s.booting
    refine { capped with booting := ?_, total := ?_ } <;> simp only [Fleet.step] <;> omega
  | @issue request vms _ asked _ room _ =>
    have := roomy _ (room (modest _ asked))
    have := capped.booting
    have := Finset.card_union_le s.booting (vms.map (·.id)).toFinset
    have := List.toFinset_card_le (vms.map (·.id))
    rw [List.length_map] at this
    refine { capped with booting := ?_, total := ?_ } <;>
      simp only [Fleet.step, List.length_map] <;> omega
  | @up _ _ id booting =>
    obtain ⟨lowered, fewer⟩ := capped.unboot booting
    have := capped.owned
    have := Finset.card_insert_le id s.owned
    refine { capped with booting := ?_, owned := ?_, total := ?_, idle_owned := fun k member => ?_ }
    · simpa only [Fleet.step, lowered] using fewer
    · simp only [Fleet.step]
      omega
    · simp only [Fleet.step, lowered]
      omega
    · exact Finset.mem_insert_of_mem (capped.idle_owned k member)
  | cancel | expire =>
    obtain ⟨lowered, fewer⟩ := capped.unboot tracks
    refine { capped with booting := ?_, total := ?_ } <;> simp only [Fleet.step, lowered]
    · exact fewer
    · omega
  | release _ idle => exact capped.release idle
  | suspend idle => exact { capped.release idle with }

end Moves

section Runs
variable {w : World} {l : Env × Action}

/-- The provider does not return one identity twice in this step. -/
def World.Distinct (w : World) (l : Env × Action) : Prop :=
  ((w.step l).2.flatMap Call.issues).Nodup

instance (w : World) (l : Env × Action) : Decidable (w.Distinct l) :=
  inferInstanceAs (Decidable (List.Nodup _))

def World.TracksPools (w : World) (l : Env × Action) : Prop :=
  ∀ q p, w.controller.pools.lookup q = some p → p.Tracked q w.controller.events l.1 l.2

instance (w : World) (l : Env × Action) : Decidable (w.TracksPools l) :=
  inferInstanceAs (Decidable (∀ q p, w.controller.pools.lookup q = some p →
    p.Tracked q w.controller.events l.1 l.2))

def World.Balanced (w : World) : Prop :=
  w.Separated ∧ ∀ q p, w.controller.pools.lookup q = some p → p.fleet.Exact

theorem World.Balanced.next (balanced : w.Balanced) (fresh : w.Fresh l) (distinct : w.Distinct l)
    (tracked : w.TracksPools l) : (w.next l).Balanced := by
  obtain ⟨separated, exact⟩ := balanced
  refine ⟨separated.next fresh, fun q p found => ?_⟩
  let arrivals := (w.step l).2.flatMap Call.issues
  have kept : ∀ s m, s.Separated w.issued arrivals ∧ s.Exact →
      Caused l.1 w.controller q l.2 s m →
      (s.step m).Separated w.issued arrivals ∧ (s.step m).Exact := by
    rintro s m ⟨apart, exact⟩ caused
    exact ⟨apart.step caused rfl fresh, exact.step apart caused (caused.tracksMove (tracked q))
      (separated q) rfl fresh distinct⟩
  have created : ∀ ev : Event, (Pool.create ev).fleet.Separated w.issued arrivals ∧
      (Pool.create ev).fleet.Exact := fun ev => ⟨.create ev, rfl, rfl⟩
  exact (step_invariant (fun ev _ _ _ _ => created ev) kept (fun old before =>
    ⟨(Pool.separated_iff.mp (separated q old before)).start, exact q old before⟩) p found).2

/-- Over any run from the empty controller with a provider that returns fresh distinct
VMs, the counters of every pool count its sets, provided that every step tracks them. -/
theorem counters_match_sets (ls : List (Env × Action))
    (fresh : Along World.next World.Fresh {} ls) (distinct : Along World.next World.Distinct {} ls)
    (tracked : Along World.next World.TracksPools {} ls) :
    ∀ q p, (ls.foldl World.next {}).controller.pools.lookup q = some p →
      p.inflight = p.provisioning.keys.length ∧ p.running = p.owned.keys.length := by
  have balanced : World.Balanced (ls.foldl World.next {}) := by
    refine ((fresh.and distinct).and tracked).invariant ?_
      ⟨World.separated_initial, fun q p found => by simp [new] at found⟩
    rintro w l balanced ⟨⟨fresh, distinct⟩, tracked⟩
    exact balanced.next fresh distinct tracked
  intro q p found
  have counted := balanced.2 q p found
  rw [← Assoc.card_members, ← Assoc.card_members]
  exact ⟨counted.inflight, counted.running⟩

/-- A VM is ordered and registers a minute later. -/
def bootRun : List (Env × Action) :=
  scaleOutRun ++ [({ now := minute }, .registerNodesUp "cloud" ["vm-1"])]

theorem counters_match_sets_after_boot :
    let ls := bootRun ++ [({ now := minute }, .reclaimIdle)]
    (Along World.next World.Fresh {} ls ∧ Along World.next World.Distinct {} ls ∧
      Along World.next World.TracksPools {} ls) ∧
    ∀ q p, (ls.foldl World.next {}).controller.pools.lookup q = some p →
      p.inflight = p.provisioning.keys.length ∧ p.running = p.owned.keys.length := by
  have met : Along World.next World.Fresh {} (bootRun ++ [({ now := minute }, .reclaimIdle)]) ∧
      Along World.next World.Distinct {} (bootRun ++ [({ now := minute }, .reclaimIdle)]) ∧
      Along World.next World.TracksPools {} (bootRun ++ [({ now := minute }, .reclaimIdle)]) := by
    decide
  exact ⟨met, counters_match_sets _ met.1 met.2.1 met.2.2⟩

/-- A node-down event takes the only node off the count and leaves it in `Owned`. -/
theorem node_down_uncounts_owned_vm :
    let ls := bootRun ++ [({ now := minute }, .send { kind := .nodeDown, queue := "cloud" }),
      ({ now := minute }, .receive)]
    Along World.next World.Fresh {} ls ∧ Along World.next World.Distinct {} ls ∧
      ∃ p, (ls.foldl World.next {}).controller.pools.lookup "cloud" = some p ∧
        p.running = 0 ∧ p.owned.keys = ["vm-1"] := by
  refine ⟨by decide, by decide, _, rfl, by decide, by decide⟩

/-- Events for the pool of `q` carry the limits `lo` and `hi`. -/
def CarriesLimits (q : String) (lo hi : Int) (_ : World) (l : Env × Action) : Prop :=
  match l.2 with
  | .send ev => ev.queue = q → ev.minNodes = lo ∧ ev.maxNodes = hi
  | _ => True

instance (q : String) (lo hi : Int) (w : World) (l : Env × Action) :
    Decidable (CarriesLimits q lo hi w l) := by
  unfold CarriesLimits
  split <;> infer_instance

/-- The provider answers this step with at most as many VMs as it was asked for. -/
def World.Modest (w : World) (l : Env × Action) : Prop := ∀ call ∈ (w.step l).2, call.Modest

instance : (call : Call) → Decidable call.Modest
  | .ensure request (.ok vms) => inferInstanceAs (Decidable ((vms.length : Int) ≤ request.count))
  | .ensure _ (.error _) | .resume _ | .reclaim .. | .drainNode _ | .deregisterNode _ =>
    inferInstanceAs (Decidable True)

instance (w : World) (l : Env × Action) : Decidable (w.Modest l) :=
  inferInstanceAs (Decidable (∀ call ∈ _, _))

def World.TracksPool (q : String) (w : World) (l : Env × Action) : Prop :=
  ∀ p, w.controller.pools.lookup q = some p → p.Tracked q w.controller.events l.1 l.2

instance (q : String) (w : World) (l : Env × Action) : Decidable (w.TracksPool q l) :=
  match found : w.controller.pools.lookup q with
  | none => .isTrue fun p same => by simp [found] at same
  | some p => decidable_of_iff (p.Tracked q w.controller.events l.1 l.2)
      ⟨fun holds r same => by rw [found] at same; exact Option.some.inj same ▸ holds,
        fun all => all p found⟩

theorem onPool_events (c : Controller) (queue : String) (f : Pool → Pool × List Call) :
    (c.onPool queue f).1.events = c.events := by
  unfold Controller.onPool
  split <;> rfl

theorem mem_events_step (env : Env) (c : Controller) (a : Action)
    (member : ev ∈ (c.step env a).1.events) : ev ∈ c.events ∨ a = .send ev := by
  cases a with
  | setNodeController => exact .inl member
  | send sent =>
    simp only [Controller.step] at member
    split at member
    · rcases List.mem_append.mp member with held | last
      · exact .inl held
      · exact .inr (by rw [List.mem_singleton.mp last])
    · exact .inl member
  | receive =>
    cases inbox : c.events with
    | nil => simp [Controller.step, inbox] at member
    | cons head rest =>
      have kept : ev ∈ rest := by
        simp only [Controller.step, inbox] at member
        unfold handle at member
        split at member
        · cases member
        all_goals exact member
      exact .inl (List.mem_cons_of_mem _ kept)
  | registerNodesUp queue nodes => exact .inl (onPool_events .. ▸ member)
  | registerNodesIdle queue nodes => exact .inl (onPool_events .. ▸ member)
  | syncQueuedJobs queue jobIDs => exact .inl (onPool_events .. ▸ member)
  | reclaimIdle =>
    have same : (reclaimIdle env c).1.events = c.events :=
      run_invariant (I := fun d : Controller => d.events = c.events)
        (fun d queue _ kept => (onPool_events ..).trans kept) rfl
    exact .inl (same ▸ member)

/-- The pool of `q` is below its limit and every event waiting for it carries that limit. -/
def World.Capped (q : String) (lo hi : Int) (w : World) : Prop :=
  (∀ p, w.controller.pools.lookup q = some p → p.fleet.Capped lo hi) ∧
    ∀ ev ∈ w.controller.events, ev.queue = q → ev.minNodes = lo ∧ ev.maxNodes = hi

theorem World.Capped.next (limits : Limits lo hi) (capped : w.Capped q lo hi)
    (carries : CarriesLimits q lo hi w l) (modest : w.Modest l) (tracked : w.TracksPool q l) :
    (w.next l).Capped q lo hi := by
  obtain ⟨capped, waiting⟩ := capped
  refine ⟨fun p found => ?_, fun ev member here => ?_⟩
  · refine step_invariant (fun ev rest head here _ => ?_) (fun s m kept caused => ?_) capped p found
    · obtain ⟨low, high⟩ := waiting ev (by simp [head]) here
      exact ⟨low, high, le_rfl, le_rfl, by simpa [Pool.fleet, Pool.create] using limits.positive.le,
        fun id member => absurd member (Finset.notMem_empty id)⟩
    · exact kept.step limits caused (caused.tracksMove tracked) modest waiting
  · rcases mem_events_step l.1 w.controller l.2 member with held | sent
    · exact waiting ev held here
    · rw [CarriesLimits, sent] at carries
      exact carries here

/-- Over any run whose events for the pool of `q` all carry the limits `lo` and `hi`, with
a provider that returns at most as many VMs as it is asked for, the pool never holds
more than `hi` VMs, provided that every step tracks its counters. -/
theorem pool_within_max_nodes (q : String) (lo hi : Int) (limits : Limits lo hi)
    (ls : List (Env × Action)) (carries : Along World.next (CarriesLimits q lo hi) {} ls)
    (modest : Along World.next World.Modest {} ls)
    (tracked : Along World.next (World.TracksPool q) {} ls) :
    ∀ p, (ls.foldl World.next {}).controller.pools.lookup q = some p →
      ((p.owned.members ∪ p.provisioning.members).card : Int) ≤ hi := by
  have capped : World.Capped q lo hi (ls.foldl World.next {}) := by
    refine ((carries.and modest).and tracked).invariant ?_
      ⟨fun p found => by simp [new] at found, fun ev member => by simp [new] at member⟩
    rintro w l capped ⟨⟨carries, modest⟩, tracked⟩
    exact capped.next limits carries modest tracked
  intro p found
  have counted := capped.1 p found
  have := Finset.card_union_le p.owned.members p.provisioning.members
  have booting : (p.provisioning.members.card : Int) ≤ p.inflight := counted.booting
  have owned : (p.owned.members.card : Int) ≤ p.running := counted.owned
  have total : p.running + p.inflight ≤ hi := counted.total
  omega

/-- A pool of at most one VM, whose VM has registered. -/
def cappedRun : List (Env × Action) :=
  [({ now := 0 }, .send { demand with maxNodes := 1 }),
    ({ now := 0, ensure := fun _ => .ok [⟨"vm-1"⟩] }, .receive),
    ({ now := minute }, .registerNodesUp "cloud" ["vm-1"])]

def askAgain : List (Env × Action) :=
  [({ now := minute }, .send { demand with maxNodes := 1 }),
    ({ now := minute, ensure := fun _ => .ok [⟨"vm-2"⟩] }, .receive)]

theorem pool_within_max_nodes_full :
    let ls := cappedRun ++ askAgain
    (Along World.next (CarriesLimits "cloud" 0 1) {} ls ∧ Along World.next World.Modest {} ls ∧
      Along World.next (World.TracksPool "cloud") {} ls) ∧
    ∀ p, (ls.foldl World.next {}).controller.pools.lookup "cloud" = some p →
      ((p.owned.members ∪ p.provisioning.members).card : Int) ≤ 1 := by
  have met : Along World.next (CarriesLimits "cloud" 0 1) {} (cappedRun ++ askAgain) ∧
      Along World.next World.Modest {} (cappedRun ++ askAgain) ∧
      Along World.next (World.TracksPool "cloud") {} (cappedRun ++ askAgain) := by decide
  exact ⟨met, pool_within_max_nodes "cloud" 0 1 ⟨by decide, by decide, by decide, by decide⟩ _ met.1 met.2.1 met.2.2⟩

/-- After a node-down event the pool orders a second VM beside the one it owns. -/
theorem node_down_breaks_max_nodes :
    let down : Event := { kind := .nodeDown, queue := "cloud", maxNodes := 1 }
    let ls := cappedRun ++ [({ now := minute }, .send down), ({ now := minute }, .receive)] ++
      askAgain
    (ls.map (·.1.now)).Pairwise (· ≤ ·) ∧ Along World.next World.Fresh {} ls ∧
      Along World.next (CarriesLimits "cloud" 0 1) {} ls ∧ Along World.next World.Modest {} ls ∧
      ∃ p, (ls.foldl World.next {}).controller.pools.lookup "cloud" = some p ∧
        (p.owned.members ∪ p.provisioning.members).card = 2 := by
  refine ⟨by decide, by decide, by decide, by decide, _, rfl, by decide⟩

end Runs
end OpenTorque.Cec
