import Podly.Store.Run
import Podly.Users.Actions

/-! The requests that create, change and delete users, with each read of the database and each
command of the writer a step of its own. -/
namespace Podly.Users
open Store WordBoundary

/-- What an admin asks for. -/
inductive Ask
  | create (username password role : String)
  | setRole (username role : String)
  | delete (username : String)
deriving DecidableEq

/-- What a request does next. A target is the row as it was read, with the role to set unless it is
to be deleted. -/
inductive Phase
  | called (acting : ℕ) (ask : Ask)
  | authorized (ask : Ask)
  | unused (username password role : String)
  | found (target : User) (role : Option String)
  | sending (cmd : Command)
  | finished (error : Option String)
deriving DecidableEq

structure Request where
  id : ℕ
  phase : Phase

namespace Request

def goTo (p : Phase) (r : Request) : Request := { r with phase := p }

theorem goTo_id (p : Phase) (r : Request) : (r.goTo p).id = r.id := rfl

end Request

structure State where
  db : Database
  requests : Table Request.id

def start (db : Database) : State := ⟨db,Table.empty⟩

namespace State

def phase (s : State) (id : ℕ) : Option Phase := (s.requests.get id).map Request.phase

def goTo (s : State) (id : ℕ) (p : Phase) : State :=
  { s with requests := s.requests.modify id (Request.goTo p) (Request.goTo_id p) }

end State

/-! What the routes and the service decide by each read -/

/-- The user of the session, as `_require_authenticated_user` reads it. -/
def authorizeAsk (db : Database) (acting : ℕ) (ask : Ask) : Phase :=
  match db.users.get acting with
  | none => .finished (some "Authentication required.")
  | some user =>
    if user.role ≠ "admin" then .finished (some "Admin privileges required.")
    else .authorized ask

/-- `create_user` up to the look for the name. -/
def lookUpUnused (T : Text) (db : Database) (username password role : String) : Phase :=
  let username := T.trim username
  let role := T.trim (if role = "" then "user" else role)
  if username = "" ∨ password = "" then
    .finished (some "Username and password are required.")
  else if normalizeUsername T username = "" then .finished (some "Username is required.")
  else if role ∉ allowedRoles then .finished (some "Role must be one of ['admin', 'user'].")
  else if (db.users.find (normalizeUsername T username)).isSome then
    .finished (some "A user with that username already exists.")
  else .unused (normalizeUsername T username) password role

def lookUpTarget (T : Text) (db : Database) (username : String) (role : Option String) : Phase :=
  match db.users.find (T.lower username) with
  | none => .finished (some "User not found.")
  | some target => .found target role

/-- `create_user` behind the look for the name. -/
def checkCreate (limit : Option ℤ) (db : Database) (username password role : String) : Phase :=
  match enforceUserLimit limit db with
  | some message => .finished (some message)
  | none => .sending (.createUser username password role)

/-- `set_role`, which goes by the role that the target had. -/
def checkSetRole (db : Database) (target : User) (role : String) : Phase :=
  if role ∉ allowedRoles then .finished (some "Role must be one of ['admin', 'user'].")
  else if target.role = "admin" ∧ role ≠ "admin" ∧ countAdmins db ≤ 1 then
    .finished (some "Cannot demote the last admin user.")
  else .sending (.setUserRole target.id role)

def checkDelete (db : Database) (target : User) : Phase :=
  if target.role = "admin" ∧ countAdmins db ≤ 1 then
    .finished (some "Cannot remove the last admin user.")
  else .sending (.deleteUser target.id)

/-! The steps -/

def authorize (s : State) (id : ℕ) : State :=
  match s.phase id with
  | some (.called acting ask) => s.goTo id (authorizeAsk s.db acting ask)
  | _ => s

def lookUp (T : Text) (s : State) (id : ℕ) : State :=
  match s.phase id with
  | some (.authorized (.create username password role)) =>
    s.goTo id (lookUpUnused T s.db username password role)
  | some (.authorized (.setRole username role)) =>
    s.goTo id (lookUpTarget T s.db username (some role))
  | some (.authorized (.delete username)) => s.goTo id (lookUpTarget T s.db username none)
  | _ => s

def readCount (limit : Option ℤ) (s : State) (id : ℕ) : State :=
  match s.phase id with
  | some (.unused username password role) =>
    s.goTo id (checkCreate limit s.db username password role)
  | some (.found target (some role)) => s.goTo id (checkSetRole s.db target role)
  | some (.found target none) => s.goTo id (checkDelete s.db target)
  | _ => s

/-- The writer takes the command of a request. -/
def write (T : Text) (s : State) (id : ℕ) : State :=
  match s.phase id with
  | some (.sending cmd) =>
    match perform T s.db cmd with
    | .ok db => { s.goTo id (.finished none) with db }
    | .error message => s.goTo id (.finished (some message))
  | _ => s

/-- A request, or a step of one; any of them may fail at any point. -/
inductive Label
  | ask (acting : ℕ) (ask : Ask)
  | authorize (id : ℕ)
  | lookUp (id : ℕ)
  | readCount (id : ℕ)
  | write (id : ℕ)
  | fail (id : ℕ) (message : String)

def newRequest (p : Phase) (id : ℕ) : Request := ⟨id,p⟩

theorem newRequest_id (p : Phase) (id : ℕ) : (newRequest p id).id = id := rfl

def request (s : State) (p : Phase) : State :=
  { s with requests := s.requests.append (newRequest p) (newRequest_id p) }

def step (T : Text) (limit : Option ℤ) (s : State) : Label → State
  | .ask acting ask => request s (.called acting ask)
  | .authorize id => Users.authorize s id
  | .lookUp id => Users.lookUp T s id
  | .readCount id => Users.readCount limit s id
  | .write id => Users.write T s id
  | .fail id message => s.goTo id (.finished (some message))

/-- There is an admin, and no more users than a positive limit. -/
structure Kept (limit : Option ℤ) (db : Database) : Prop where
  admin : 0 < countAdmins db
  within : ∀ n ∈ limit, 0 < n → (countUsers db : ℤ) ≤ n

/-- The guard of the service, as the writer finds it: a user to come has a place, and an admin to go
is not the last one. -/
def Allowed (T : Text) (limit : Option ℤ) (db : Database) : Command → Prop
  | .createUser username password role =>
    createUserRefusal T db username password role = none →
      ∀ n ∈ limit, 0 < n → (countUsers db : ℤ) < n
  | .deleteUser userId =>
    ∀ user ∈ db.users.get userId, userId ≠ 0 → user.role = "admin" → 1 < countAdmins db
  | .setUserRole userId role =>
    ∀ user ∈ db.users.get userId, userId ≠ 0 → role = "user" → user.role = "admin" →
      1 < countAdmins db

/-- A command is written while its guard holds. -/
def StillAllowed (T : Text) (limit : Option ℤ) (s : State) : Label → Prop
  | .write id => ∀ cmd, s.phase id = some (.sending cmd) → Allowed T limit s.db cmd
  | _ => True

section
variable {T : Text} {limit : Option ℤ} {db db' : Database}

theorem kept_createUser_iff {username password role : String} (hdb : Kept limit db)
    (h : perform T db (.createUser username password role) = .ok db') :
    Kept limit db' ↔ Allowed T limit db (.createUser username password role) := by
  obtain ⟨hnone,user,hrows⟩ := users_createUserAction h
  have hadmins : countAdmins db ≤ countAdmins db' := by
    rw [countAdmins,countAdmins,hrows,List.countP_append]
    omega
  have husers : countUsers db' = countUsers db + 1 := by
    rw [countUsers,countUsers,hrows,List.length_append,List.length_singleton]
  constructor
  · intro hkept _ n hn hpos
    have := hkept.within n hn hpos
    omega
  · intro hallowed
    refine ⟨by have := hdb.admin; omega,?_⟩
    intro n hn hpos
    have := hallowed hnone n hn hpos
    omega

theorem kept_deleteUser_iff {userId : ℕ} (hdb : Kept limit db)
    (h : perform T db (.deleteUser userId) = .ok db') :
    Kept limit db' ↔ Allowed T limit db (.deleteUser userId) := by
  have hid : userId ≠ 0 := by
    rintro rfl
    cases h
  cases huser : db.users.get userId with
  | none =>
    simp only [perform,deleteUserAction,if_neg hid,huser] at h
    rw [← Except.ok.inj h]
    refine iff_of_true hdb ?_
    intro user hmem
    rw [huser] at hmem
    cases hmem
  | some user =>
    have hadmins : countAdmins db' + (decide (user.role = "admin")).toNat = countAdmins db :=
      countP_deleteUserAction hid huser h _
    have husers : countUsers db' + 1 = countUsers db := by
      rw [countUsers_eq_countP,countUsers_eq_countP]
      exact countP_deleteUserAction hid huser h _
    have hwithin : ∀ n ∈ limit, 0 < n → (countUsers db' : ℤ) ≤ n := by
      intro n hn hpos
      have := hdb.within n hn hpos
      omega
    have hallowed : Allowed T limit db (.deleteUser userId) ↔
        (user.role = "admin" → 1 < countAdmins db) := by
      simp [Allowed,huser,hid]
    have hpos := hdb.admin
    rw [hallowed]
    by_cases hrole : user.role = "admin"
    · simp only [hrole,decide_true,Bool.toNat_true,forall_const] at hadmins ⊢
      constructor
      · intro hkept
        have := hkept.admin
        omega
      · intro hmany
        exact ⟨by omega,hwithin⟩
    · simp only [hrole,decide_false,Bool.toNat_false] at hadmins
      exact iff_of_true ⟨by omega,hwithin⟩ (fun he => absurd he hrole)

theorem kept_setUserRole_iff {userId : ℕ} {role : String} (hdb : Kept limit db)
    (h : perform T db (.setUserRole userId role) = .ok db') :
    Kept limit db' ↔ Allowed T limit db (.setUserRole userId role) := by
  obtain ⟨hid,hmem,user,huser,hcount⟩ := countP_setUserRoleAction h
  have hadmins : countAdmins db' + (decide (user.role = "admin")).toNat =
      countAdmins db + (decide (role = "admin")).toNat := hcount _
  have husers : countUsers db' = countUsers db := by
    rw [countUsers_eq_countP,countUsers_eq_countP]
    exact Nat.add_right_cancel (hcount (fun _ => true))
  have hwithin : ∀ n ∈ limit, 0 < n → (countUsers db' : ℤ) ≤ n := by
    rw [husers]
    exact hdb.within
  have hallowed : Allowed T limit db (.setUserRole userId role) ↔
      (role = "user" → user.role = "admin" → 1 < countAdmins db) := by
    simp [Allowed,huser,hid]
  have hpos := hdb.admin
  rw [hallowed]
  rcases List.mem_pair.mp hmem with rfl | rfl
  · simp only [decide_true,Bool.toNat_true] at hadmins
    refine iff_of_true ⟨?_,hwithin⟩ (fun he => absurd he (by decide))
    have := Bool.toNat_le (decide (user.role = "admin"))
    omega
  · have huser : ¬("user" = "admin") := by decide
    simp only [huser,decide_false,Bool.toNat_false,forall_const] at hadmins ⊢
    by_cases hrole : user.role = "admin"
    · simp only [hrole,decide_true,Bool.toNat_true,forall_const] at hadmins ⊢
      constructor
      · intro hkept
        have := hkept.admin
        omega
      · intro hmany
        exact ⟨by omega,hwithin⟩
    · simp only [hrole,decide_false,Bool.toNat_false] at hadmins
      exact iff_of_true ⟨by omega,hwithin⟩ (fun he => absurd he hrole)

/-- A command that goes through keeps the store right exactly when its guard holds. -/
theorem kept_perform_iff {cmd : Command} (hdb : Kept limit db) (h : perform T db cmd = .ok db') :
    Kept limit db' ↔ Allowed T limit db cmd := by
  cases cmd with
  | createUser username password role => exact kept_createUser_iff hdb h
  | deleteUser userId => exact kept_deleteUser_iff hdb h
  | setUserRole userId role => exact kept_setUserRole_iff hdb h

/-- The guard of a command that the writer refuses does not matter. -/
theorem allowed_of_error {cmd : Command} {message : String} (h : perform T db cmd = .error message) :
    Allowed T limit db cmd := by
  cases cmd with
  | createUser username password role =>
    intro hnone
    obtain ⟨db',hok⟩ := exists_createUserAction hnone
    change createUserAction T db username password role = _ at h
    rw [hok] at h
    cases h
  | deleteUser userId =>
    intro user huser hid
    simp only [perform,deleteUserAction,if_neg hid] at h
    split at h <;> cases h
  | setUserRole userId role =>
    rintro user huser hid rfl
    rw [Option.mem_def] at huser
    simp only [perform,setUserRoleAction,hid,huser] at h
    split_ifs at h
    · rename_i hrole
      exact hrole.elim (fun he => absurd he id) (fun he => absurd he (by decide))
    · rename_i hrole
      exact absurd (by decide) hrole

end

/-! What the steps keep -/

section
variable {T : Text} {limit : Option ℤ} {s : State} {id : ℕ}

theorem phase_goTo (p : Phase) (h : s.phase id ≠ none) : (s.goTo id p).phase id = some p := by
  unfold State.phase at h ⊢
  cases hrow : s.requests.get id with
  | none => exact absurd (congrArg (Option.map Request.phase) hrow) h
  | some r =>
    rw [State.goTo,Table.get_modify,if_pos rfl,hrow]
    rfl

theorem db_authorize : (authorize s id).db = s.db := by
  unfold authorize
  split <;> rfl

theorem db_lookUp : (lookUp T s id).db = s.db := by
  unfold lookUp
  split <;> rfl

theorem db_readCount : (readCount limit s id).db = s.db := by
  unfold readCount
  split <;> rfl

/-- A step keeps the store right exactly when what it writes is still allowed. -/
theorem kept_step_iff (hs : Kept limit s.db) (l : Label) :
    Kept limit (step T limit s l).db ↔ StillAllowed T limit s l := by
  cases l with
  | ask acting ask => exact iff_of_true hs trivial
  | authorize id => exact iff_of_true ((congrArg (Kept limit) db_authorize).mpr hs) trivial
  | lookUp id => exact iff_of_true ((congrArg (Kept limit) db_lookUp).mpr hs) trivial
  | readCount id => exact iff_of_true ((congrArg (Kept limit) db_readCount).mpr hs) trivial
  | fail id message => exact iff_of_true hs trivial
  | write id =>
    change Kept limit (write T s id).db ↔ ∀ cmd, s.phase id = some (.sending cmd) → _
    unfold write
    split
    · rename_i cmd hphase
      have hcmd : (∀ c, s.phase id = some (.sending c) → Allowed T limit s.db c) ↔
          Allowed T limit s.db cmd := by
        simp [hphase]
      rw [hcmd]
      split
      · rename_i hok
        exact kept_perform_iff hs hok
      · rename_i herror
        exact iff_of_true hs (allowed_of_error herror)
    · rename_i hother
      exact iff_of_true hs (fun cmd hphase => absurd hphase (hother cmd))

end

/-- In a run of requests there is an admin and no user too many at every point exactly when every
command is written while the check of its request would still pass. -/
theorem kept_iff (T : Text) (limit : Option ℤ) (db : Database) (hdb : Kept limit db)
    (ls : List Label) :
    (∀ before, before <+: ls → Kept limit (run (step T limit) (start db) before).db) ↔
      AllSteps (step T limit) (StillAllowed T limit) (start db) ls :=
  forall_prefix_iff (I := fun _ => True) (J := fun s : State => Kept limit s.db) (Q := fun _ => True)
    (fun _ _ _ _ => trivial) (fun _ l _ _ hs => kept_step_iff hs l) trivial hdb
    (fun _ _ => trivial)

/-! Requests that do not overlap -/

section
variable {T : Text} {limit : Option ℤ} {db : Database} {s : State} {id : ℕ}

theorem allowed_of_checkCreate {username password role : String} {cmd : Command}
    (h : checkCreate limit db username password role = .sending cmd) : Allowed T limit db cmd := by
  unfold checkCreate at h
  split at h
  · cases h
  · rename_i hlimit
    obtain rfl := Phase.sending.inj h
    intro _ n hn hpos
    rw [Option.mem_def] at hn
    rw [hn] at hlimit
    simp only [enforceUserLimit,if_neg (not_lt.mpr hpos.le)] at hlimit
    split at hlimit
    · cases hlimit
    · rename_i hroom
      exact not_le.mp (fun hle => hroom (Or.inr hle))

theorem allowed_of_checkSetRole {target : User} {role : String} {cmd : Command}
    (htarget : db.users.get target.id = some target)
    (h : checkSetRole db target role = .sending cmd) : Allowed T limit db cmd := by
  unfold checkSetRole at h
  split_ifs at h with _ hlast
  obtain rfl := Phase.sending.inj h
  rintro user huser - rfl hrole
  obtain rfl := Option.some.inj (htarget.symm.trans huser)
  by_contra hle
  exact hlast ⟨hrole,by decide,not_lt.mp hle⟩

theorem allowed_of_checkDelete {target : User} {cmd : Command}
    (htarget : db.users.get target.id = some target)
    (h : checkDelete db target = .sending cmd) : Allowed T limit db cmd := by
  unfold checkDelete at h
  split_ifs at h with hlast
  obtain rfl := Phase.sending.inj h
  intro user huser _ hrole
  obtain rfl := Option.some.inj (htarget.symm.trans huser)
  by_contra hle
  exact hlast ⟨hrole,not_lt.mp hle⟩

/-- What a request has read is what the database holds, and nothing is checked yet. -/
def Fresh (db : Database) : Phase → Prop
  | .found target _ => db.users.get target.id = some target
  | .sending _ => False
  | _ => True

theorem fresh_lookUpTarget (username : String) (role : Option String) :
    Fresh db (lookUpTarget T db username role) := by
  unfold lookUpTarget
  split
  · trivial
  · rename_i target htarget
    exact Table.get_eq_some.mpr ⟨(Indexed.find_eq_some.mp htarget).1,rfl⟩

theorem fresh_lookUpUnused (username password role : String) :
    Fresh db (lookUpUnused T db username password role) := by
  unfold lookUpUnused
  dsimp only
  generalize T.trim (if role = "" then "user" else role) = role
  split
  · trivial
  · split
    · trivial
    · split
      · trivial
      · split <;> trivial

theorem fresh_authorize {p : Phase} (hp : s.phase id = some p) (hfresh : Fresh s.db p) :
    ∃ q, (authorize s id).phase id = some q ∧ Fresh s.db q := by
  have hsome : s.phase id ≠ none := by
    rw [hp]
    exact Option.some_ne_none p
  unfold authorize
  split
  · rename_i acting ask _
    refine ⟨authorizeAsk s.db acting ask,phase_goTo _ hsome,?_⟩
    unfold authorizeAsk
    split
    · trivial
    · split <;> trivial
  · exact ⟨p,hp,hfresh⟩

theorem fresh_lookUp {p : Phase} (hp : s.phase id = some p) (hfresh : Fresh s.db p) :
    ∃ q, (lookUp T s id).phase id = some q ∧ Fresh s.db q := by
  have hsome : s.phase id ≠ none := by
    rw [hp]
    exact Option.some_ne_none p
  unfold lookUp
  split
  · rename_i username password role _
    exact ⟨_,phase_goTo _ hsome,fresh_lookUpUnused username password role⟩
  · rename_i username role _
    exact ⟨_,phase_goTo _ hsome,fresh_lookUpTarget username (some role)⟩
  · rename_i username _
    exact ⟨_,phase_goTo _ hsome,fresh_lookUpTarget username none⟩
  · exact ⟨p,hp,hfresh⟩

/-- Right after the check, with what it goes by read just before, the command is allowed. -/
theorem stillAllowed_readCount {p : Phase} (hp : s.phase id = some p) (hfresh : Fresh s.db p) :
    StillAllowed T limit (readCount limit s id) (.write id) := by
  intro cmd hcmd
  rw [db_readCount]
  have hsome : s.phase id ≠ none := by
    rw [hp]
    exact Option.some_ne_none p
  unfold readCount at hcmd
  split at hcmd
  · rw [phase_goTo _ hsome] at hcmd
    exact allowed_of_checkCreate (Option.some.inj hcmd)
  · rename_i target role hfound
    rw [phase_goTo _ hsome] at hcmd
    obtain rfl := Option.some.inj (hp.symm.trans hfound)
    exact allowed_of_checkSetRole hfresh (Option.some.inj hcmd)
  · rename_i target hfound
    rw [phase_goTo _ hsome] at hcmd
    obtain rfl := Option.some.inj (hp.symm.trans hfound)
    exact allowed_of_checkDelete hfresh (Option.some.inj hcmd)
  · obtain rfl := Option.some.inj (hp.symm.trans hcmd)
    exact hfresh.elim

/-- A request from its call to its end. -/
def serve (T : Text) (limit : Option ℤ) (s : State) (acting : ℕ) (ask : Ask) : State :=
  let id := s.requests.nextKey
  run (step T limit) s [.ask acting ask,.authorize id,.lookUp id,.readCount id,.write id]

theorem kept_serve (hs : Kept limit s.db) (acting : ℕ) (ask : Ask) :
    Kept limit (serve T limit s acting ask).db := by
  let id := s.requests.nextKey
  let called := request s (.called acting ask)
  have hcalled : called.phase id = some (.called acting ask) := by
    simp only [called,request,State.phase,Table.get_append,id,if_true,Option.map_some]
    rfl
  have hauthorized : (authorize called id).db = s.db := db_authorize
  obtain ⟨p,hp,hfresh⟩ := fresh_authorize hcalled trivial
  have hlooked : (lookUp T (authorize called id) id).db = s.db := db_lookUp.trans hauthorized
  obtain ⟨q,hq,hfresh'⟩ := fresh_lookUp (T := T) hp (hauthorized.symm ▸ hfresh)
  have hread : (readCount limit (lookUp T (authorize called id) id) id).db = s.db :=
    db_readCount.trans hlooked
  have hallowed : StillAllowed T limit (readCount limit (lookUp T (authorize called id) id) id)
      (.write id) := by
    refine stillAllowed_readCount hq ?_
    rw [hlooked,← hauthorized]
    exact hfresh'
  exact (kept_step_iff (hread.symm ▸ hs) (.write id)).mpr hallowed

/-- Requests that come one after the other leave an admin and no user too many. -/
theorem kept_run_serve (hs : Kept limit s.db) (asks : List (ℕ × Ask)) :
    Kept limit (run (fun t a => serve T limit t a.1 a.2) s asks).db :=
  run_invariant (I := fun t : State => Kept limit t.db)
    (fun _ a ht => kept_serve ht a.1 a.2) hs asks

end

/-! Two admins who delete each other -/

instance (limit : Option ℤ) (db : Database) : Decidable (Kept limit db) :=
  decidable_of_iff (0 < countAdmins db ∧ ∀ n ∈ limit, 0 < n → (countUsers db : ℤ) ≤ n)
    ⟨fun h => ⟨h.1,h.2⟩,fun h => ⟨h.admin,h.within⟩⟩

def asciiText : Text := ⟨isWhitespace,fun s => String.ofList (s.toList.map Char.toLower)⟩

def twoAdmins : Database :=
  { Database.empty with
    users := ⟨⟨[⟨1,"a","admin"⟩,⟨2,"b","admin"⟩],by decide⟩,by decide⟩ }

/-- One of them deletes the other. -/
theorem kept_deleteOnce : Kept none twoAdmins ∧ Kept none (run (step asciiText none)
    (start twoAdmins) [.ask 1 (.delete "b"),.authorize 1,.lookUp 1,.readCount 1,.write 1]).db := by
  have hphase : (run (step asciiText none) (start twoAdmins)
      [.ask 1 (.delete "b"),.authorize 1,.lookUp 1,.readCount 1]).phase 1 =
        some (.sending (.deleteUser 2)) := by decide
  have hsteps : AllSteps (step asciiText none) (StillAllowed asciiText none) (start twoAdmins)
      [.ask 1 (.delete "b"),.authorize 1,.lookUp 1,.readCount 1,.write 1] := by
    refine ⟨trivial,trivial,trivial,trivial,?_,trivial⟩
    intro cmd hcmd
    obtain rfl := Phase.sending.inj (Option.some.inj (hphase.symm.trans hcmd))
    intro user _ _ _
    decide
  exact ⟨by decide,(kept_iff asciiText none twoAdmins (by decide)
    [.ask 1 (.delete "b"),.authorize 1,.lookUp 1,.readCount 1,.write 1]).mpr hsteps _
    (List.prefix_refl _)⟩

/-- Both count the admins before either of them is gone. -/
theorem not_kept_deleteEachOther : ¬ (∀ T limit db, Kept limit db → ∀ ls,
    Kept limit (run (step T limit) (start db) ls).db) := by
  intro h
  have hrun := h asciiText none twoAdmins (by decide)
    [.ask 1 (.delete "b"),.ask 2 (.delete "a"),.authorize 1,.authorize 2,.lookUp 1,.lookUp 2,
      .readCount 1,.readCount 2,.write 1,.write 2]
  exact absurd hrun (by decide)

end Podly.Users
