import OpenTorque.Core.Transition
import OpenTorque.Core.Number
import OpenTorque.Server.Frame
import OpenTorque.Server.Lifecycle

/-! Connections and what the server trusts about them. Authentication is kept in a table
keyed by the text of a remote address: an entry outlives the connection it was made for,
and a later connection from the same address finds it. -/
namespace OpenTorque.Pbs
open Transition (Along watched)

structure Address where
  host : String
  port : Nat
  deriving DecidableEq, Repr

namespace Address

/-- `RemoteAddr().String()`; a host that holds colons is put in brackets. -/
def text (a : Address) : String :=
  if ':' ∈ a.host.toList then "[" ++ a.host ++ "]:" ++ toString a.port
  else a.host ++ ":" ++ toString a.port

def isPrivileged (a : Address) : Bool := a.port < 1024

/-- The key that `handleAuthenUser` makes of the sender's host and the port it names. -/
def authKey (a : Address) (clientPort : Nat) : String := a.host ++ ":" ++ toString clientPort

/-- A request as the connection it comes over presents it to its handler. -/
def stamp (a : Address) : Request → Request
  | .jobObit _ _ id status attrs => .jobObit a.text a.isPrivileged id status attrs
  | r => r

end Address

/-- The user of the header and the body of an `AuthToken` request. -/
structure Token where
  user : String
  timestamp : Nat
  token : String
  deriving DecidableEq, Repr

def maxClockSkew : Int := 300

/-- The signature scheme and the server's key, if it could load or make one. -/
structure Authority where
  Key : Type
  computeToken : String → Int → Key → String
  authKey : Option Key

namespace Authority

/-- `VerifyToken`, at a time in seconds; the differences wrap around. -/
def verifyToken (authority : Authority) (now : Int) (t : Token) (key : authority.Key) : Bool :=
  let timestamp := wrap64 t.timestamp
  let diff := wrap64 (now - timestamp)
  let diff := if diff < 0 then wrap64 (-diff) else diff
  !(maxClockSkew < diff) && t.token = authority.computeToken t.user timestamp key

def accepts (authority : Authority) (now : Int) (t : Token) : Bool :=
  authority.authKey.any (authority.verifyToken now t)

end Authority

/-- The server and its open connections, each under the number it was accepted with. -/
structure Front where
  server : Server
  accepted : Nat := 0
  conns : List (Nat × Address) := []

inductive Traffic where
  | connect (a : Address)
  | disconnect (c : Nat)
  | authenUser (c : Nat) (user : String) (clientPort : Nat)
  | authToken (c : Nat) (now : Int) (t : Token)
  | request (c : Nat) (env : Env) (r : Request)
  | background (env : Env) (step : Step)

/-- Messages of MOMs, ends of dispatches and rounds of the background tasks. -/
def Step.background : Step → Bool
  | .request _ | .authenticate .. => false
  | _ => true

namespace Front

def address (w : Front) (c : Nat) : Option Address :=
  (w.conns.find? (·.1 = c)).map (·.2)

def close (w : Front) (c : Nat) : Front := { w with conns := w.conns.filter (·.1 ≠ c) }

def authenticate (w : Front) (key user : String) : Front :=
  { w with server := { w.server with authMap := w.server.authMap.insert key user } }

def openFrom (w : Front) (remote : String) : List Nat :=
  (w.conns.filter (·.2.text = remote)).map (·.1)

/-- One event; what is sent over a closed connection reaches no handler. -/
def next (authority : Authority) (w : Front) : Traffic → Front
  | .connect a => { w with accepted := w.accepted + 1, conns := (w.accepted, a) :: w.conns }
  | .disconnect c => w.close c
  | .authenUser c user clientPort =>
    (w.address c).elim w fun a => w.authenticate (a.authKey clientPort) user
  | .authToken c now t =>
    (w.address c).elim w fun a =>
      if authority.accepts now t then w.authenticate a.text t.user else w.close c
  | .request c env r =>
    (w.address c).elim w fun a =>
      let handled := w.server.handle env (a.stamp r)
      let after := { w with server := handled.server }
      if handled.keepOpen then after else after.close c
  | .background env step =>
    if step.background then { w with server := w.server.step env step } else w

/-- The connections authenticated while open: by a token accepted on the connection, or by
an `AuthenUser` from a privileged port that names its address. -/
def note (authority : Authority) (w : Front) : Traffic → List Nat → List Nat
  | .authenUser c _ clientPort, trusted =>
    (w.address c).elim trusted fun a =>
      if a.isPrivileged then w.openFrom (a.authKey clientPort) ++ trusted else trusted
  | .authToken c now t, trusted =>
    if (w.address c).isSome && authority.accepts now t then c :: trusted else trusted
  | _, trusted => trusted

def Trusts (w : Front × List Nat) (c : Nat) : Prop :=
  (w.1.address c).any (·.isPrivileged) ∨ c ∈ w.2

/-- If the event is an obituary that changes a job, its connection can be trusted. -/
def Justified (authority : Authority) (w : Front × List Nat) : Traffic → Prop
  | .request c env (.jobObit remote privileged id status attrs) =>
    (∃ x, (w.1.next authority (.request c env (.jobObit remote privileged id status attrs))).server.job x ≠
      w.1.server.job x) → Trusts w c
  | _ => True

/-- A connection is opened from an ordinary port only while its address has no entry, a
token is sent while its address has one connection, and `AuthenUser` comes from a
privileged port. -/
def Guarded (w : Front × List Nat) : Traffic → Prop
  | .connect a => a.isPrivileged ∨ a.text ∉ w.1.server.authMap
  | .authenUser c _ _ => (w.1.address c).all (·.isPrivileged)
  | .authToken c _ _ => ∀ a ∈ w.1.address c, ∀ other ∈ w.1.openFrom a.text, other = c
  | _ => True

instance (w : Front × List Nat) (c : Nat) : Decidable (Trusts w c) :=
  inferInstanceAs (Decidable (_ ∨ _))

instance (w : Front × List Nat) (event : Traffic) : Decidable (Guarded w event) := by
  unfold Guarded
  split <;> infer_instance

end Front

namespace Front
variable {authority : Authority} {w : Front} {c : Nat} {a : Address}

theorem mem_openFrom (found : w.address c = some a) : c ∈ w.openFrom a.text := by
  obtain ⟨⟨d, b⟩, first, rfl⟩ := Option.map_eq_some_iff.mp found
  obtain rfl : d = c := by simpa using List.find?_some first
  exact List.mem_map.mpr ⟨(d, b), by simpa using List.mem_of_find?_eq_some first, rfl⟩

theorem address_close (found : (w.close other).address c = some a) : w.address c = some a := by
  obtain ⟨⟨d, b⟩, first, rfl⟩ := Option.map_eq_some_iff.mp found
  rw [close, List.find?_filter] at first
  obtain ⟨apart, rfl⟩ : d ≠ other ∧ d = c := by simpa using List.find?_some first
  have agree : ∀ p : Nat × Address, (p.1 ≠ other ∧ p.1 = d) ↔ p.1 = d := by grind
  simp only [decide_eq_true_eq, agree] at first
  rw [address, first, Option.map_some]

theorem address_connect : (w.next authority (.connect b)).address c =
    if c = w.accepted then some b else w.address c := by
  by_cases same : w.accepted = c
  · simp [next, address, same]
  · simp [next, address, same, Ne.symm same]

/-- A connection whose address has an entry can be trusted. -/
def Sound (w : Front × List Nat) : Prop :=
  ∀ c a, w.1.address c = some a → a.text ∈ w.1.server.authMap → Trusts w c

namespace Sound
variable {w : Front × List Nat}

theorem close (sound : Sound w) (c : Nat) : Sound (w.1.close c, w.2) := by
  intro other a found known
  have before := address_close found
  rcases sound other a before known with low | trusted
  · left
    simpa [found, before] using low
  · exact .inr trusted

theorem onServer (sound : Sound w) (same : s.authMap = w.1.server.authMap) :
    Sound ({ w.1 with server := s }, w.2) :=
  fun other a found known => sound other a found (same ▸ known)

/-- Entering one more address is sound if every connection from it can be trusted. -/
theorem authenticate (sound : Sound w) (entered : ∀ c ∈ w.1.openFrom key, c ∈ trusted)
    (kept : w.2 ⊆ trusted) (user : String) : Sound (w.1.authenticate key user, trusted) := by
  intro c a found known
  rcases (AList.mem_insert _).mp known with same | known
  · exact .inr (entered c (same ▸ mem_openFrom found))
  · exact (sound c a found known).imp_right (kept ·)

theorem connect (sound : Sound w) (new : a.isPrivileged ∨ a.text ∉ w.1.server.authMap) :
    Sound (w.1.next authority (.connect a), w.2) := by
  intro c b found known
  rw [address_connect] at found
  split at found
  case isTrue same =>
    cases found
    exact .inl (by simpa [address_connect, same] using new.resolve_right (not_not.mpr known))
  case isFalse other =>
    refine (sound c b found known).imp_left fun low => ?_
    rwa [address_connect, if_neg other]

theorem next (sound : Sound w) (guarded : Guarded w event) :
    Sound (watched (Front.next authority) (note authority) w event) := by
  cases event with
  | connect a => exact sound.connect guarded
  | disconnect c => exact sound.close c
  | authenUser c user clientPort =>
    cases found : w.1.address c with
    | none => simpa [watched, Front.next, note, found] using sound
    | some a =>
      have low : a.isPrivileged = true := by simpa [Guarded, found] using guarded
      simp only [watched, Front.next, note, found, Option.elim_some, low, if_true]
      exact sound.authenticate (fun c => List.mem_append_left _) (List.subset_append_right _ _) user
  | authToken c now t =>
    cases found : w.1.address c with
    | none => simpa [watched, Front.next, note, found] using sound
    | some a =>
      simp only [watched, Front.next, note, found, Option.elim_some, Option.isSome_some, Bool.true_and]
      split
      · refine sound.authenticate (fun other from_ => ?_) (List.subset_cons_self _ _) t.user
        exact List.mem_cons.mpr (.inl (guarded a found other from_))
      · exact sound.close c
  | request c env r =>
    cases found : w.1.address c with
    | none => simpa [watched, Front.next, note, found] using sound
    | some a =>
      have kept := sound.onServer ((Server.handle_effect w.1.server env (a.stamp r)).books.authMap_eq (by simp))
      simp only [watched, Front.next, note, found, Option.elim_some]
      split
      · exact kept
      · exact kept.close c
  | background env step =>
    simp only [watched, Front.next, note]
    split
    case isTrue task =>
      refine sound.onServer ((Server.step_effect w.1.server env step).books.authMap_eq fun remote user same => ?_)
      simp [same, Step.background] at task
    case isFalse => exact sound

end Sound

/-- An obituary is taken only from a privileged port or from an address with an entry. -/
theorem Sound.justified {w : Front × List Nat} (sound : Sound w) (event : Traffic) :
    Justified authority w event := by
  unfold Justified
  split
  case h_2 => trivial
  case h_1 c env remote privileged id status attrs =>
    rintro ⟨x, changed⟩
    cases found : w.1.address c with
    | none => simp [Front.next, found] at changed
    | some a =>
      by_contra doubted
      have unknown : a.text ∉ w.1.server.authMap := fun known => doubted (sound c a found known)
      have high : a.isPrivileged = false := by
        by_contra low
        exact doubted (.inl (by simpa [found] using low))
      simp [Front.next, found, Address.stamp, Server.handle, Server.handleJobObit, high, unknown,
        Server.reject, Front.close] at changed

/-- In every run in which no address is taken over from an earlier connection and only
privileged ports name others, an obituary that changes a job comes over a connection from
a privileged port or over one that was itself authenticated. -/
theorem obituaries_from_trusted (authority : Authority) (s : Server) (events : List Traffic)
    (guarded : Along (watched (next authority) (note authority)) Guarded ({ server := s }, []) events) :
    Along (watched (next authority) (note authority)) (Justified authority)
      ({ server := s }, []) events :=
  guarded.entails (I := Sound) (fun _ _ sound guarded => sound.next guarded)
    (fun _ event sound _ => sound.justified event) fun c a found => by cases found

/-- Tokens that sign nothing but the user's name. -/
def namesOnly : Authority :=
  { Key := Unit, computeToken := fun user _ _ => user, authKey := some () }

def oneRunning : Server :=
  fromEmpty (atOnce [.manager (.createQueue "batch" []),
    .manager (.createNode "node1" [{ name := "np", value := "1" }]),
    .queueJob "alice@host" "batch" [], .commit "0.server", .runJob "0.server" "node1"])

def mom : Address := ⟨"10.0.0.5", 40000⟩

def obituaryOn (c : Nat) : Traffic :=
  .request c { now := 2 } (.jobObit "" false "0.server" 0 [])

def authenticated : List Traffic :=
  [.connect mom, .authToken 0 100 ⟨"root", 100, "root"⟩]

theorem obituaries_from_trusted_token :
    Along (watched (next namesOnly) (note namesOnly)) (Justified namesOnly)
        ({ server := oneRunning }, []) (authenticated ++ [obituaryOn 0]) ∧
      ((authenticated ++ [obituaryOn 0]).foldl (next namesOnly) { server := oneRunning }).server.finished
        "0.server" = true :=
  ⟨obituaries_from_trusted namesOnly oneRunning _ (by decide +kernel),
    by decide +kernel⟩

/-- The authenticated connection is closed and another one opened from the same port. -/
def reused : List Traffic := authenticated ++ [.disconnect 0, .connect mom]

/-- The new connection sends no token, and its obituary ends the job. -/
theorem reused_address_ends_job :
    ¬ Along (watched (next namesOnly) (note namesOnly)) (Justified namesOnly)
      ({ server := oneRunning }, []) (reused ++ [obituaryOn 1]) := by
  intro along
  have last := (Along.append.mp along).2.1
  simp only [Justified, obituaryOn] at last
  have changed : ∀ {j k : Option Job}, j.any (·.state = .complete) ≠ k.any (·.state = .complete) →
      j ≠ k := fun states same => states (congrArg _ same)
  exact absurd (last ⟨"0.server", changed (by decide +kernel)⟩) (by decide +kernel)

end Front

end OpenTorque.Pbs
