import GameServer.UserCenter

/-!
# The account aggregate

`Account` with its identities and players. `Validate` tells two identities
apart by the joined key `provider + "\x00" + subject`, `AddIdentity` looks for
the pair of fields. The two agree only while the joined keys can be taken apart
again.
-/

namespace GameServer.UserCenter.Domain

def errPlayerLinked : GoErr := .new "player is already linked"

/-- `AuthProvider` is a string type; the constants are `AuthProvider.string`. -/
structure Identity where
  id : String
  accountID : String
  provider : String
  subject : String
  passwordHash : String
  linkedAt : Time
  deriving DecidableEq, Repr

def Identity.validate (i : Identity) : Except GoErr Unit :=
  if i.provider = "" ∨ i.subject = "" then .error errInvalidIdentity
  else if i.provider = "password" ∧ i.passwordHash = "" then .error errInvalidIdentity
  else .ok ()

def Identity.key (i : Identity) : String := i.provider ++ "\x00" ++ i.subject

structure Account where
  id : String
  identities : List Identity
  playerIDs : List String
  createdAt : Time
  updatedAt : Time
  deriving DecidableEq, Repr

def validateIdentities : List String → List Identity → Except GoErr Unit
  | _, [] => .ok ()
  | identityKeys, identity :: rest => do
    identity.validate
    if identity.key ∈ identityKeys then .error errInvalidAccount
    else validateIdentities (identity.key :: identityKeys) rest

def validatePlayers : List String → List String → Except GoErr Unit
  | _, [] => .ok ()
  | playerIDs, playerID :: rest =>
    if playerID = "" then .error errInvalidAccount
    else if playerID ∈ playerIDs then .error errInvalidAccount
    else validatePlayers (playerID :: playerIDs) rest

namespace Account

def validate (a : Account) : Except GoErr Unit :=
  if a.id = "" then .error errInvalidAccount
  else do
    validateIdentities [] a.identities
    validatePlayers [] a.playerIDs

def findIdentity (a : Account) (provider subject : String) : Option Identity :=
  a.identities.find? fun identity => identity.provider == provider && identity.subject == subject

/-- The methods with a pointer receiver return the error and the account as they leave it. -/
def addIdentity (a : Account) (identity : Identity) : Except GoErr Unit × Account :=
  match identity.validate with
  | .error _ => (.error errInvalidIdentity, a)
  | .ok () =>
    match a.findIdentity identity.provider identity.subject with
    | some _ => (.error errInvalidIdentity, a)
    | none => (.ok (), { a with identities := a.identities ++ [{ identity with accountID := a.id }] })

def hasPlayer (a : Account) (playerID : String) : Bool :=
  if playerID = "" then false else a.playerIDs.any fun linkedPlayerID => linkedPlayerID == playerID

def linkPlayer (a : Account) (playerID : String) (now : Time) : Except GoErr Unit × Account :=
  if a.id = "" ∨ playerID = "" then (.error errInvalidAccount, a)
  else if a.hasPlayer playerID then (.error errPlayerLinked, a)
  else (.ok (), { a with playerIDs := a.playerIDs ++ [playerID], updatedAt := now })

end Account

/-! ## What `Validate` accepts -/

theorem validateIdentities_iff {keys : List String} {l : List Identity} :
    validateIdentities keys l = .ok () ↔
      (∀ i ∈ l, i.validate = .ok ()) ∧ (∀ i ∈ l, i.key ∉ keys) ∧ (l.map Identity.key).Nodup := by
  induction l generalizing keys with
  | nil => simp [validateIdentities]
  | cons i l ih =>
    rw [validateIdentities]
    cases hi : i.validate with
    | error e => simp [hi, bind, Except.bind]
    | ok =>
      change (if i.key ∈ keys then _ else _) = _ ↔ _
      by_cases hk : i.key ∈ keys
      · simp [hk]
      · -- the rest must avoid the keys seen so far and this one
        rw [if_neg hk, ih]
        rw [List.forall_mem_cons, List.forall_mem_cons, List.map_cons, List.nodup_cons]
        constructor
        · rintro ⟨hv, hfresh, hnd⟩
          refine ⟨⟨hi, hv⟩, ⟨hk, fun j hj => List.not_mem_of_not_mem_cons (hfresh j hj)⟩, ?_, hnd⟩
          rintro hmem
          obtain ⟨j, hj, heq⟩ := List.mem_map.mp hmem
          exact List.ne_of_not_mem_cons (hfresh j hj) heq
        · rintro ⟨⟨-, hv⟩, ⟨-, hfresh⟩, hne, hnd⟩
          refine ⟨hv, fun j hj => ?_, hnd⟩
          exact List.not_mem_cons_of_ne_of_not_mem (fun h => hne (h ▸ List.mem_map_of_mem hj)) (hfresh j hj)

theorem validatePlayers_iff {seen l : List String} :
    validatePlayers seen l = .ok () ↔ "" ∉ l ∧ (∀ p ∈ l, p ∉ seen) ∧ l.Nodup := by
  induction l generalizing seen with
  | nil => simp [validatePlayers]
  | cons p l ih =>
    rw [validatePlayers]
    by_cases hp : p = ""
    · simp [hp]
    by_cases hs : p ∈ seen
    · simp [hp, hs]
    rw [if_neg hp, if_neg hs, ih]
    rw [List.forall_mem_cons, List.nodup_cons]
    constructor
    · rintro ⟨hne, hfresh, hnd⟩
      refine ⟨List.not_mem_cons_of_ne_of_not_mem (Ne.symm hp) hne, ⟨hs, fun q hq => ?_⟩, ?_, hnd⟩
      · exact List.not_mem_of_not_mem_cons (hfresh q hq)
      · exact fun hpl => List.ne_of_not_mem_cons (hfresh p hpl) rfl
    · rintro ⟨hne, ⟨-, hfresh⟩, hpl, hnd⟩
      refine ⟨List.not_mem_of_not_mem_cons hne, fun q hq => ?_, hnd⟩
      exact List.not_mem_cons_of_ne_of_not_mem (fun h => hpl (h ▸ hq)) (hfresh q hq)

structure Valid (a : Account) : Prop where
  id : a.id ≠ ""
  identities : ∀ i ∈ a.identities, i.validate = .ok ()
  keys : (a.identities.map Identity.key).Nodup
  players : "" ∉ a.playerIDs
  distinct : a.playerIDs.Nodup

theorem validate_iff {a : Account} : a.validate = .ok () ↔ Valid a := by
  have hbind : a.validate = .ok () ↔
      a.id ≠ "" ∧ validateIdentities [] a.identities = .ok () ∧ validatePlayers [] a.playerIDs = .ok () := by
    unfold Account.validate
    by_cases hid : a.id = ""
    · simp [hid]
    rw [if_neg hid]
    cases h : validateIdentities [] a.identities <;> simp [hid, bind, Except.bind]
  rw [hbind, validateIdentities_iff, validatePlayers_iff]
  constructor
  · rintro ⟨hid, ⟨hv, -, hk⟩, hne, -, hnd⟩
    exact ⟨hid, hv, hk, hne, hnd⟩
  · rintro ⟨hid, hv, hk, hne, hnd⟩
    exact ⟨hid, ⟨hv, by simp, hk⟩, hne, by simp, hnd⟩

/-! ## The two methods -/

def Identity.named (provider subject : String) (i : Identity) : Bool := i.provider == provider && i.subject == subject

theorem named_iff {provider subject : String} {i : Identity} :
    i.named provider subject = true ↔ i.provider = provider ∧ i.subject = subject := by
  simp [Identity.named]

def Refused (a : Account) (r : Except GoErr Unit × Account) : Prop :=
  (∃ err, r.1 = .error err) ∧ r.2.identities = a.identities ∧ r.2.playerIDs = a.playerIDs

def Added (a : Account) (identity : Identity) (r : Except GoErr Unit × Account) : Prop :=
  r.1 = .ok () ∧ r.2.validate = .ok () ∧
    r.2.findIdentity identity.provider identity.subject = some { identity with accountID := a.id } ∧
    r.2.identities.countP (Identity.named identity.provider identity.subject) = 1

def Linked (playerID : String) (r : Except GoErr Unit × Account) : Prop :=
  r.1 = .ok () ∧ r.2.validate = .ok () ∧ r.2.hasPlayer playerID = true ∧ r.2.playerIDs.count playerID = 1

/-- The joined key of the identity belongs to no identity of the account with other fields. -/
def KeyApart (a : Account) (identity : Identity) : Prop :=
  ∀ other ∈ a.identities, other.key = identity.key → other.named identity.provider identity.subject = true

theorem findIdentity_eq_none {a : Account} {provider subject : String} :
    a.findIdentity provider subject = none ↔ ∀ i ∈ a.identities, i.named provider subject = false := by
  simp only [Account.findIdentity, List.find?_eq_none, Bool.not_eq_true]
  rfl

theorem key_of_named {identity other : Identity} (h : other.named identity.provider identity.subject = true) :
    other.key = identity.key := by
  obtain ⟨hp, hs⟩ := named_iff.mp h
  rw [Identity.key, Identity.key, hp, hs]

theorem validate_accountID (identity : Identity) (account : String) :
    Identity.validate { identity with accountID := account } = identity.validate := rfl

theorem valid_append_iff {a : Account} {identity : Identity} (ha : Valid a) (hi : identity.validate = .ok ()) :
    Valid { a with identities := a.identities ++ [{ identity with accountID := a.id }] } ↔
      ∀ other ∈ a.identities, other.key ≠ identity.key := by
  have hkey : Identity.key { identity with accountID := a.id } = identity.key := rfl
  constructor
  · intro hv other hmem heq
    have hnd := hv.keys
    rw [List.map_append, List.nodup_append] at hnd
    exact hnd.2.2 _ (List.mem_map_of_mem hmem) _ (List.mem_singleton.mpr rfl) (heq.trans hkey.symm)
  · intro hnew
    refine ⟨ha.id, ?_, ?_, ha.players, ha.distinct⟩
    · intro i hmem
      rcases List.mem_append.mp hmem with hold | hlast
      · exact ha.identities i hold
      · rw [List.mem_singleton.mp hlast, validate_accountID, hi]
    · rw [List.map_append, List.nodup_append]
      refine ⟨ha.keys, List.nodup_singleton _, ?_⟩
      intro k hk k' hk'
      obtain ⟨other, hmem, rfl⟩ := List.mem_map.mp hk
      rw [List.map_singleton, List.mem_singleton, hkey] at hk'
      exact hk' ▸ hnew other hmem

theorem addIdentity_iff {a : Account} {identity : Identity} (ha : Valid a) :
    Refused a (a.addIdentity identity) ∨ Added a identity (a.addIdentity identity) ↔
      (identity.validate = .ok () → KeyApart a identity) := by
  cases hi : identity.validate with
  | error e =>
    have hr : a.addIdentity identity = (.error errInvalidIdentity, a) := by rw [Account.addIdentity, hi]
    rw [hr]
    exact ⟨fun _ h => absurd h (by simp), fun _ => .inl ⟨⟨_, rfl⟩, rfl, rfl⟩⟩
  | ok u =>
    cases hf : a.findIdentity identity.provider identity.subject with
    | some found =>
      have hr : a.addIdentity identity = (.error errInvalidIdentity, a) := by rw [Account.addIdentity, hi]; simp [hf]
      rw [hr]
      refine ⟨fun _ _ other hmem hkey => ?_, fun _ => .inl ⟨⟨_, rfl⟩, rfl, rfl⟩⟩
      -- keys are distinct, so the identity with this key is the one that was found
      have hnamed : found.named identity.provider identity.subject = true := List.find?_some hf
      have heq : other = found :=
        List.inj_on_of_nodup_map ha.keys hmem (List.mem_of_find?_eq_some hf) (hkey.trans (key_of_named hnamed).symm)
      rw [heq, hnamed]
    | none =>
      have hr : a.addIdentity identity =
          (.ok (), { a with identities := a.identities ++ [{ identity with accountID := a.id }] }) := by
        rw [Account.addIdentity, hi]; simp [hf]
      rw [hr]
      have hnone := findIdentity_eq_none.mp hf
      have hself : Identity.named identity.provider identity.subject { identity with accountID := a.id } = true :=
        named_iff.mpr ⟨rfl, rfl⟩
      constructor
      · intro h _ other hmem hkey
        obtain ⟨⟨err, herr⟩, -, -⟩ | ⟨-, hv, -, -⟩ := h
        · cases herr
        · exact absurd hkey ((valid_append_iff ha hi).mp (validate_iff.mp hv) other hmem)
      · intro hapart
        refine .inr ⟨rfl, validate_iff.mpr ((valid_append_iff ha hi).mpr ?_), ?_, ?_⟩
        · intro other hmem hkey
          have := hnone other hmem
          rw [hapart rfl other hmem hkey] at this
          cases this
        · change (a.identities ++ _).find? _ = _
          rw [List.find?_append, show a.identities.find? _ = none from hf]
          simp
        · rw [List.countP_append, List.countP_eq_zero.mpr fun i hmem => by simp [hnone i hmem],
            List.countP_singleton, if_pos hself]

theorem hasPlayer_iff {a : Account} {playerID : String} (hne : playerID ≠ "") :
    a.hasPlayer playerID = true ↔ playerID ∈ a.playerIDs := by
  simp [Account.hasPlayer, hne]

theorem linkPlayer_sound {a : Account} (ha : Valid a) (playerID : String) (now : Time) :
    Refused a (a.linkPlayer playerID now) ∨ Linked playerID (a.linkPlayer playerID now) := by
  unfold Account.linkPlayer
  by_cases hid : a.id = "" ∨ playerID = ""
  · rw [if_pos hid]; exact .inl ⟨⟨_, rfl⟩, rfl, rfl⟩
  have hne : playerID ≠ "" := fun h => hid (.inr h)
  rw [if_neg hid]
  by_cases hp : a.hasPlayer playerID = true
  · rw [if_pos hp]; exact .inl ⟨⟨_, rfl⟩, rfl, rfl⟩
  · have hnew : playerID ∉ a.playerIDs := fun h => hp ((hasPlayer_iff hne).mpr h)
    rw [if_neg hp]
    refine .inr ⟨rfl, validate_iff.mpr ⟨ha.id, ha.identities, ha.keys, ?_, ?_⟩, ?_, ?_⟩
    · simp [ha.players, Ne.symm hne]
    · exact List.nodup_append.mpr ⟨ha.distinct, List.nodup_singleton _, by
        intro p hmem q hq heq
        exact hnew (List.mem_singleton.mp hq ▸ heq ▸ hmem)⟩
    · exact (hasPlayer_iff hne).mpr (by simp)
    · simp [List.count_eq_zero.mpr hnew]

/-- A valid account stays valid: `LinkPlayer` always refuses or links, and
`AddIdentity` refuses or adds exactly when no identity with other fields has
the joined key of the new one. -/
theorem account_stays_valid_iff (a : Account) (ha : a.validate = .ok ()) (identity : Identity) (playerID : String)
    (now : Time) :
    (Refused a (a.addIdentity identity) ∨ Added a identity (a.addIdentity identity) ↔
      (identity.validate = .ok () → KeyApart a identity)) ∧
    (Refused a (a.linkPlayer playerID now) ∨ Linked playerID (a.linkPlayer playerID now)) :=
  ⟨addIdentity_iff (validate_iff.mp ha), linkPlayer_sound (validate_iff.mp ha) playerID now⟩

def nulAccount : Account where
  id := "account"
  identities := [⟨"i1", "account", "a", "b\x00c", "", 1⟩]
  playerIDs := ["p1"]
  createdAt := 1
  updatedAt := 1

theorem account_stays_valid_steam :
    nulAccount.validate = .ok () ∧
      Added nulAccount ⟨"i2", "", "steam", "c", "", 2⟩ (nulAccount.addIdentity ⟨"i2", "", "steam", "c", "", 2⟩) ∧
      Linked "p2" (nulAccount.linkPlayer "p2" 3) := by
  have hv : nulAccount.validate = .ok () := by decide
  obtain ⟨hadd, hlink⟩ := account_stays_valid_iff nulAccount hv ⟨"i2", "", "steam", "c", "", 2⟩ "p2" 3
  have hapart : KeyApart nulAccount ⟨"i2", "", "steam", "c", "", 2⟩ := by
    intro other hmem hkey
    rw [List.mem_singleton.mp hmem] at hkey
    exact absurd hkey (by decide)
  refine ⟨hv, (hadd.mpr fun _ => hapart).resolve_left ?_, hlink.resolve_left ?_⟩
  · rintro ⟨⟨err, herr⟩, -⟩
    exact absurd (herr.symm.trans rfl : Except.error err = .ok ()) (by simp)
  · rintro ⟨⟨err, herr⟩, -⟩
    exact absurd (herr.symm.trans rfl : Except.error err = .ok ()) (by simp)

theorem nul_identity_breaks_account :
    nulAccount.validate = .ok () ∧
      ∃ a', nulAccount.addIdentity ⟨"i2", "", "a\x00b", "c", "", 2⟩ = (.ok (), a') ∧
        a'.identities.length = 2 ∧ a'.validate = .error errInvalidAccount := by
  refine ⟨by decide, _, rfl, by decide, by decide⟩

/-! ## The providers of the user center -/

theorem key_inj {i j : Identity} (hi : '\x00' ∉ i.provider.toList) (hj : '\x00' ∉ j.provider.toList)
    (h : i.key = j.key) : i.provider = j.provider ∧ i.subject = j.subject := by
  have hlist := congrArg String.toList h
  simp only [Identity.key, String.toList_append, List.append_assoc] at hlist
  obtain ⟨hp, hs⟩ := append_sep_inj hi hj hlist
  exact ⟨String.toList_inj.mp hp, String.toList_inj.mp hs⟩

def providerString : AuthProvider → String
  | .guest => "guest"
  | .steam => "steam"
  | .apple => "apple"
  | .google => "google"
  | .wechat => "wechat"
  | .password => "password"

theorem nul_not_mem_providerString (p : AuthProvider) : '\x00' ∉ (providerString p).toList := by
  cases p <;> decide

def Identity.ofStored (i : UserCenter.Identity) : Identity :=
  ⟨i.id, i.accountID, providerString i.provider, i.subject, i.passwordHash, i.linkedAt⟩

theorem validate_ofStored (i : UserCenter.Identity) : (Identity.ofStored i).validate = i.validate := by
  have hne : providerString i.provider ≠ "" := by cases i.provider <;> decide
  have hpass : providerString i.provider = "password" ↔ i.provider = .password := by cases i.provider <;> decide
  simp only [Identity.validate, UserCenter.Identity.validate, Identity.ofStored, hne, hpass, false_or]

theorem addIdentity_ofStored {a : Account} (ha : Valid a)
    (hown : ∀ i ∈ a.identities, ∃ stored, i = Identity.ofStored stored) (stored : UserCenter.Identity) :
    Refused a (a.addIdentity (.ofStored stored)) ∨ Added a (.ofStored stored) (a.addIdentity (.ofStored stored)) := by
  refine (addIdentity_iff ha).mpr fun _ other hmem hkey => ?_
  obtain ⟨i, rfl⟩ := hown other hmem
  exact named_iff.mpr (key_inj (nul_not_mem_providerString _) (nul_not_mem_providerString _) hkey)

end GameServer.UserCenter.Domain
