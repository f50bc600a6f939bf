import GameServer.Recovery

/-!
# The user center: when a reservation is resolved

One call of `Reserve`, with any commands of others before each of its own. It
ends with ownership, with a record of the same request or with a conflict, unless
the record that was in its way has gone or was replaced when it looks it up.
-/

namespace GameServer.UserCenter

section
variable (c : DomainAuthComponent)

/-- What others do before a command: `Reserve`, `Complete`, `Release`, `Renew`,
`RecoverExpired` and the TTL monitor, or anything else. -/
def others (w : World) (commands : List (Nat × Env × Cmd)) : World :=
  commands.foldl (fun w x => ((exec c x.1 x.2.1 w x.2.2).map (·.2)).getD w) w

def among (T : Time) (i : Nat) (e : List (Nat × Env × Cmd) × Nat) (w : World) (cmd : Cmd) : Option (Ans cmd × World) :=
  if (others c w e.1).clock + e.2 < T then exec c i { delay := e.2 } (others c w e.1) cmd else none

end

structure IdempotencyRecord.Reservable (record : IdempotencyRecord) (now : Time) : Prop where
  reservation : record.reservationID ≠ ""
  lease : record.leaseUntil ≠ 0
  key : record.key ≠ ""
  hash : record.requestHash ≠ ""
  pending : record.state = .pending
  live : now < record.expiresAt

def IdempotencyRecord.foreign (record d : IdempotencyRecord) : Bool :=
  decide (d.operation ≠ record.operation ∨ d.requestHash ≠ record.requestHash)

/-- The call owns the key with its own reservation stored, or is given a record of
its request, or another request holds the key. -/
inductive Resolved (record : IdempotencyRecord) (w : World) : Except GoErr (IdempotencyRecord × Bool) → Prop
  | owned (d : IdempotencyRecord) (hd : d ∈ w.records) (hkey : d.key = record.key)
    (hid : d.reservationID = record.reservationID) : Resolved record w (.ok (d, true))
  | read (d : IdempotencyRecord) (hsame : record.foreign d = false) : Resolved record w (.ok (d, false))
  | conflict (d : IdempotencyRecord) (hd : d ∈ w.records) (hkey : d.key = record.key) (hforeign : record.foreign d = true) :
    Resolved record w (.error errIdempotencyConflict)

namespace Reserve

abbrev Log := List ((cmd : Cmd) × Ans cmd)

def missed? : ((cmd : Cmd) × Ans cmd) → Bool
  | ⟨.findRecord _ _, .error _⟩ => true
  | ⟨.deleteStale _ _, .ok false⟩ => true
  | _ => false

def refused? : ((cmd : Cmd) × Ans cmd) → Bool
  | ⟨.claim _ _ _ _ _, .ok none⟩ => true
  | _ => false

def foreign? (record : IdempotencyRecord) : ((cmd : Cmd) × Ans cmd) → Bool
  | ⟨.findRecord _ _, .ok d⟩ => record.foreign d
  | _ => false

def Log.missed (log : Log) : Bool := log.getLast?.any missed?

def Log.replaced (record : IdempotencyRecord) (log : Log) : Bool := log.any refused? && log.getLast?.any (foreign? record)

def Outcome (record : IdempotencyRecord) (log : Log) (w : World) (r : Except GoErr (IdempotencyRecord × Bool)) : Prop :=
  (Resolved record w r ↔ log.missed = false ∧ Log.replaced record log = false) ∧
    (r = .error errIdempotencyNotFound ↔ log.missed = true)

variable {c : DomainAuthComponent} {T : Time} {i : Nat} {record : IdempotencyRecord} {now : Time} {w w' : World} {log : Log}

theorem missed_snoc (log : Log) (x : (cmd : Cmd) × Ans cmd) : Log.missed (log ++ [x]) = missed? x := by
  simp [Log.missed]

theorem replaced_snoc (log : Log) (x : (cmd : Cmd) × Ans cmd) :
    Log.replaced record (log ++ [x]) = ((log.any refused? || refused? x) && foreign? record x) := by
  simp [Log.replaced]

theorem among_eq {e : List (Nat × Env × Cmd) × Nat} {cmd : Cmd} {r : Ans cmd} (h : among c T i e w cmd = some (r, w')) :
    (others c w e.1).clock + e.2 < T ∧ ((others c w e.1).tick e.2).answer c i cmd { delay := e.2 } = some (r, w') := by
  unfold among at h
  split at h
  · rename_i hT
    exact ⟨hT, h⟩
  · cases h

theorem answered {cmd : Cmd} (hcmd : cmd.reserves = true) {delay : Nat} : (exec c i { delay := delay } w cmd).isSome = true := by
  cases cmd with
  | insertRecord d =>
    simp only [exec, World.answer]
    split <;> rfl
  | now | findRecord _ _ | deleteStale _ _ | claim _ _ _ _ _ => rfl
  | _ => cases hcmd

theorem not_resolved_notFound : ¬ Resolved record w (.error errIdempotencyNotFound) := by
  have hne : errIdempotencyNotFound ≠ errIdempotencyConflict := by decide
  generalize hr : (.error errIdempotencyNotFound : Except GoErr (IdempotencyRecord × Bool)) = r
  intro h
  cases h with
  | owned => cases hr
  | read => cases hr
  | conflict => exact hne (Except.error.inj hr)

theorem outcome_resolved {r : Except GoErr (IdempotencyRecord × Bool)} (hr : Resolved record w r) (hmissed : log.missed = false)
    (hreplaced : Log.replaced record log = false) : Outcome record log w r := by
  refine ⟨iff_of_true hr ⟨hmissed, hreplaced⟩, iff_of_false ?_ fun h => Bool.false_ne_true (hmissed.symm.trans h)⟩
  rintro rfl
  exact not_resolved_notFound hr

theorem outcome_missed (hmissed : log.missed = true) : Outcome record log w (.error errIdempotencyNotFound) :=
  ⟨iff_of_false not_resolved_notFound fun h => Bool.false_ne_true (h.1.symm.trans hmissed), iff_of_true rfl hmissed⟩

section
variable (hvalid : record.Reservable now)
include hvalid

theorem ends_findRecord {α : Type} {post : Log → World → α → Prop} {k : Except GoErr IdempotencyRecord → Prog Ans α}
    (hok : ∀ w' d, d ∈ w'.records → d.key = record.key →
      (k (.ok d)).Ends (among c T) i post (log ++ [⟨.findRecord record.key now, .ok d⟩]) w')
    (hnone : ∀ w', (k (.error errIdempotencyNotFound)).Ends (among c T) i post
      (log ++ [⟨.findRecord record.key now, .error errIdempotencyNotFound⟩]) w') :
    (Prog.call (.findRecord record.key now) k).Ends (among c T) i post log w := by
  intro e r w' hx
  obtain ⟨-, hx⟩ := among_eq hx
  cases hx
  rcases Recovery.findRecord_cases ((others c w e.1).tick e.2) hvalid.key now with ⟨d, hfind⟩ | ⟨hfind, -⟩
  · obtain ⟨hd, hkey, -⟩ := findRecord_ok hfind
    rw [hfind]
    exact hok _ d hd hkey
  · rw [hfind]
    exact hnone _

omit hvalid in
theorem ends_insertRecord {α : Type} {post : Log → World → α → Prop} {k : Inserted → Prog Ans α}
    (hok : ∀ w', record ∈ w'.records → (k .ok).Ends (among c T) i post (log ++ [⟨.insertRecord record, .ok⟩]) w')
    (hduplicate : ∀ w', (k .duplicate).Ends (among c T) i post (log ++ [⟨.insertRecord record, .duplicate⟩]) w') :
    (Prog.call (.insertRecord record) k).Ends (among c T) i post log w := by
  intro e r w' hx
  obtain ⟨-, hx⟩ := among_eq hx
  simp only [World.answer] at hx
  split at hx
  · rename_i records hins
    cases hx
    exact hok _ ((Coll.mem_insertOne hins record).mpr (.inl rfl))
  · cases hx
    exact hduplicate _

theorem ends_contend {current : IdempotencyRecord} (hcurrent : current ∈ w.records)
    (hkey : current.key = record.key) (hmissed : log.missed = false) (hclaims : log.any refused? = false) :
    (contend record now current).Ends (among c T) i (Outcome record) log w := by
  have hreplaced : Log.replaced record log = false := by rw [Log.replaced, hclaims, Bool.false_and]
  unfold contend
  split
  · rename_i hforeign
    exact outcome_resolved (.conflict current hcurrent hkey (decide_eq_true hforeign)) hmissed hreplaced
  rename_i hforeign
  have hsame : record.foreign current = false := decide_eq_false hforeign
  split
  · exact outcome_resolved (.read current hsame) hmissed hreplaced
  split
  · exact outcome_resolved (.read current hsame) hmissed hreplaced
  simp only [perform, Prog.perform_bind, Prog.pure_eq]
  intro e r w' hx
  obtain ⟨-, hx⟩ := among_eq hx
  obtain ⟨o, w₁, hclaim⟩ : ∃ o w₁, ((others c w e.1).tick e.2).claim record.key current.reservationID now record.reservationID
    record.leaseUntil = (o, w₁) := ⟨_, _, rfl⟩
  simp only [World.answer, hclaim] at hx
  cases hx
  rcases claim_cases hclaim with ⟨rfl, rfl⟩ | ⟨d, hd, hp, rfl, -, hmem⟩
  · -- refused: the lookup that follows is returned as it is, whatever request its record is of
    refine ends_findRecord hvalid (fun w' latest _ _ => ?_) fun w' => outcome_missed (missed_snoc _ _)
    have hlog : Log.replaced record ((log ++ [⟨.claim record.key current.reservationID now record.reservationID record.leaseUntil,
        .ok none⟩]) ++ [⟨.findRecord record.key now, .ok latest⟩]) = record.foreign latest := by
      rw [replaced_snoc, List.any_append, hclaims]
      rfl
    cases hlatest : record.foreign latest with
    | false => exact outcome_resolved (.read latest hlatest) (missed_snoc _ _) (hlog.trans hlatest)
    | true =>
      have hnot : ¬ Resolved record w' (.ok (latest, false)) := by
        intro h
        cases h with
        | read _ hsame => exact Bool.false_ne_true (hsame.symm.trans hlatest)
      refine ⟨iff_of_false hnot fun h => ?_, iff_of_false (fun h => by cases h) fun h => ?_⟩
      · exact Bool.false_ne_true (h.2.symm.trans (hlog.trans hlatest))
      · exact Bool.false_ne_true ((missed_snoc _ _).symm.trans h)
  · simp only [claimFilter, Bool.and_eq_true, beq_iff_eq] at hp
    refine outcome_resolved (.owned _ ((hmem _).mpr (.inr rfl)) hp.1.1.1 rfl) (missed_snoc _ _) ?_
    rw [replaced_snoc]
    exact Bool.and_false _

theorem ends_replaceStale (hclaims : log.any refused? = false) :
    (replaceStale record now errIdempotencyNotFound).Ends (among c T) i (Outcome record) log w := by
  simp only [replaceStale, perform, Prog.perform_bind, Prog.pure_eq]
  intro e r w' hx
  obtain ⟨-, hx⟩ := among_eq hx
  cases hx
  cases hstale : (((others c w e.1).tick e.2).records.findOne (staleFilter record.key now)).isSome with
  -- with nothing deleted, the error of the lookup before is returned
  | false => exact outcome_missed (missed_snoc _ _)
  | true =>
    refine ends_insertRecord (fun w' hmem => ?_) fun w' => ?_
    · refine outcome_resolved (.owned record hmem rfl rfl) (missed_snoc _ _) ?_
      rw [replaced_snoc]
      exact Bool.and_false _
    · refine ends_findRecord hvalid (fun w' d hd hkey => ?_) fun w' => outcome_missed (missed_snoc _ _)
      refine ends_contend hvalid hd hkey (missed_snoc _ _) ?_
      simp [hclaims, refused?]

end

end Reserve

def reservation (reservationID : String) : IdempotencyRecord :=
  pendingRecord plainComponent "k" .guestAuthenticate "digest" reservationID 5

def reserveThenRelease : Prog Ans (Except GoErr (IdempotencyRecord × Bool)) := do
  let r ← reserve (reservation "theirs") 5
  let _ ← perform (.release "k" "theirs")
  return r

end GameServer.UserCenter
