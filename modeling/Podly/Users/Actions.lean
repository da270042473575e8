import Podly.Episodes.Rows
import Podly.WordBoundary.Tokens

/-! The accounts: what the service checks before it changes the users, and what the writer does. -/
namespace Podly.Users
open Store WordBoundary

structure User where
  id : ℕ
  username : String
  role : String
deriving DecidableEq

/-- The users that a row of `processing_job` refers to. -/
structure JobUsers where
  id : String
  requestedByUserId : Option ℕ
  billingUserId : Option ℕ
deriving DecidableEq

structure Database where
  users : Indexed User.id User.username
  tokens : Table Episodes.FeedAccessToken.id
  memberships : Indexed Episodes.UserFeed.id Episodes.UserFeed.key
  jobs : Table JobUsers.id

def Database.empty : Database := ⟨Indexed.empty,Table.empty,Indexed.empty,Table.empty⟩

/-- `ALLOWED_ROLES`. -/
def allowedRoles : List String := ["admin","user"]

def normalizeUsername (T : Text) (username : String) : String := T.lower (T.trim username)

def countAdmins (db : Database) : ℕ := db.users.table.rows.countP (fun user => user.role = "admin")

def countUsers (db : Database) : ℕ := db.users.table.rows.length

/-- `_enforce_user_limit`; a negative limit is none, and 0 lets nobody in. -/
def enforceUserLimit (limit : Option ℤ) (db : Database) : Option String :=
  match limit with
  | none => none
  | some limit =>
    if limit < 0 then none
    else if limit = 0 ∨ limit ≤ (countUsers db : ℤ) then
      some ("User limit reached (" ++ toString (countUsers db) ++ "/" ++ toString limit ++
        "). Delete a user or increase the limit.")
    else none

/-! The actions of the writer -/

/-- What `create_user` of the writer refuses, in its order. -/
def createUserRefusal (T : Text) (db : Database) (username password role : String) :
    Option String :=
  if normalizeUsername T username = "" then some "username is required"
  else if password = "" then some "password is required"
  else if (if role = "" then "user" else role) ∉ allowedRoles then
    some "role must be 'admin' or 'user'"
  else if (db.users.find (normalizeUsername T username)).isSome then
    some "A user with that username already exists"
  else if 72 < password.utf8ByteSize then some "password cannot be longer than 72 bytes"
  else none

def newUser (username role : String) (id : ℕ) : User := ⟨id,username,role⟩

theorem newUser_id (username role : String) (id : ℕ) : (newUser username role id).id = id := rfl

variable {T : Text} {db db' : Database}

/-- A name that is taken is refused. -/
theorem find_of_createUserRefusal {username password role : String}
    (h : createUserRefusal T db username password role = none) :
    db.users.find (normalizeUsername T username) = none := by
  by_contra hfind
  have hsome : (db.users.find (normalizeUsername T username)).isSome :=
    Option.isSome_iff_ne_none.mpr hfind
  rw [createUserRefusal,if_pos hsome] at h
  split_ifs at h

def createUserAction (T : Text) (db : Database) (username password role : String) :
    Except String Database :=
  match h : createUserRefusal T db username password role with
  | some message => .error message
  | none =>
    let row := newUser (normalizeUsername T username) (if role = "" then "user" else role)
    .ok { db with users := db.users.append row (newUser_id _ _) (find_of_createUserRefusal h) }

/-- Clear the references of a job to a user. -/
def JobUsers.clear (userId : ℕ) (job : JobUsers) : JobUsers :=
  { job with
    requestedByUserId := if job.requestedByUserId = some userId then none else job.requestedByUserId
    billingUserId := if job.billingUserId = some userId then none else job.billingUserId }

theorem JobUsers.clear_id (userId : ℕ) (job : JobUsers) : (job.clear userId).id = job.id := rfl

/-- `delete_user`, with the rows that refer to the user; one that is gone is no error. -/
def deleteUserAction (db : Database) (userId : ℕ) : Except String Database :=
  if userId = 0 then .error "user_id is required"
  else match db.users.get userId with
    | none => .ok db
    | some _ => .ok
      { users := db.users.deleteWhere (fun user => user.id = userId)
        tokens := db.tokens.deleteWhere (fun token => token.userId = userId)
        memberships := db.memberships.deleteWhere (fun membership => membership.userId = userId)
        jobs := db.jobs.mapRows (JobUsers.clear userId) (JobUsers.clear_id userId) }

def User.setRole (role : String) (user : User) : User := { user with role }

theorem User.setRole_id (role : String) (user : User) : (user.setRole role).id = user.id := rfl

theorem User.setRole_username (role : String) (user : User) :
    (user.setRole role).username = user.username := rfl

def setUserRoleAction (db : Database) (userId : ℕ) (role : String) : Except String Database :=
  if userId = 0 ∨ role = "" then .error "user_id and role are required"
  else if role ∉ allowedRoles then .error "role must be 'admin' or 'user'"
  else match db.users.get userId with
    | none => .error ("User " ++ toString userId ++ " not found")
    | some _ =>
      let users := db.users.modify userId (User.setRole role) (User.setRole_id role)
        (User.setRole_username role)
      .ok { db with users }

/-- What the service sends to the writer. -/
inductive Command
  | createUser (username password role : String)
  | deleteUser (userId : ℕ)
  | setUserRole (userId : ℕ) (role : String)
deriving DecidableEq

def perform (T : Text) (db : Database) : Command → Except String Database
  | .createUser username password role => createUserAction T db username password role
  | .deleteUser userId => deleteUserAction db userId
  | .setUserRole userId role => setUserRoleAction db userId role

/-! What the actions do to the counts -/

theorem countUsers_eq_countP (db : Database) :
    countUsers db = db.users.table.rows.countP (fun _ => true) :=
  (congrFun List.countP_true db.users.table.rows).symm

/-- A user comes after the others, under a free name. -/
theorem users_createUserAction {username password role : String}
    (h : createUserAction T db username password role = .ok db') :
    createUserRefusal T db username password role = none ∧ ∃ user : User,
      db'.users.table.rows = db.users.table.rows ++ [user] := by
  unfold createUserAction at h
  split at h
  · cases h
  · rename_i hnone
    exact ⟨hnone,_,congrArg (fun d : Database => d.users.table.rows) (Except.ok.inj h).symm⟩

theorem exists_createUserAction {username password role : String}
    (h : createUserRefusal T db username password role = none) :
    ∃ db', createUserAction T db username password role = .ok db' := by
  unfold createUserAction
  split
  · rename_i message hsome
    rw [h] at hsome
    cases hsome
  · exact ⟨_,rfl⟩

/-- The user is gone, and no other. -/
theorem countP_deleteUserAction {userId : ℕ} {user : User} (hid : userId ≠ 0)
    (huser : db.users.get userId = some user) (h : deleteUserAction db userId = .ok db')
    (q : User → Bool) :
    db'.users.table.rows.countP q + (q user).toNat = db.users.table.rows.countP q := by
  simp only [deleteUserAction,if_neg hid,huser] at h
  rw [← Except.ok.inj h,← Table.countP_key huser q]
  exact Table.countP_deleteWhere db.users.table _ q

/-- The user has the role, and the others are as before. -/
theorem countP_setUserRoleAction {userId : ℕ} {role : String}
    (h : setUserRoleAction db userId role = .ok db') :
    userId ≠ 0 ∧ role ∈ allowedRoles ∧ ∃ user, db.users.get userId = some user ∧
      ∀ q : User → Bool, db'.users.table.rows.countP q + (q user).toNat =
        db.users.table.rows.countP q + (q (user.setRole role)).toNat := by
  unfold setUserRoleAction at h
  split at h
  · cases h
  · rename_i hgiven
    split at h
    · cases h
    · rename_i hrole
      split at h
      · cases h
      · rename_i user huser
        refine ⟨fun he => hgiven (Or.inl he),not_not.mp hrole,user,huser,?_⟩
        intro q
        rw [← Except.ok.inj h]
        exact @Table.countP_modify _ _ User.id _ _ _ _ (User.setRole_id role) _ huser q

end Podly.Users
