import Lumina.Core.Crypto
import Lumina.Library.Server

/-!
# CredentialService

The credentials of one tenant are sealed under its data key, which is stored under the master
key.  The first call that needs the data key creates it; a call that finds at its insertion that
another one has been first goes on with the key of the other.

The times of the rows are left out.  The world outside the database is the source of random bytes;
beside it stands, for the proofs, the list of the calls that have been committed, latest first.
-/

namespace Lumina.Platform

open Interleaving Transition ReadCommitted Crypto

namespace Credentials

/-- The row of the data key, whose primary key is the tenant, and those of the credentials. -/
inductive Key where
  | dataKey
  | credential (name : String)
deriving DecidableEq, Repr

inductive Row where
  | dataKey (wrappedKey : Bytes)
  | credential (ciphertext : Bytes) (hint : String)
deriving DecidableEq, Repr

inductive CredentialError where
  | notFound
  | crypto (e : CryptoError)
  | integrityError
  | operationalError
deriving DecidableEq, Repr

/-- `secrets.token_bytes` -/
inductive Entropy where
  | tokenBytes (n : ℕ)

abbrev Entropy.Reply : Entropy → Type
  | .tokenBytes _ => Bytes

abbrev Tx (α : Type) := Program (Op.Reply (κ := Key) (ν := Row) Entropy.Reply) CredentialError α

structure CredentialView where
  name : String
  hint : String
deriving DecidableEq, Repr

inductive Call where
  | put (name secret : String)
  | getSecret (name : String)
  | delete (name : String)
deriving DecidableEq, Repr

inductive Result where
  | view (view : CredentialView)
  | secret (secret : String)
  | done
deriving DecidableEq, Repr

def ofCrypto {α : Type} : Except CryptoError α → Tx α
  | .ok a => .pure a
  | .error e => .raise (.crypto e)

def hintChars : ℕ := 4

/-- `secret[-4:]` -/
def hintOf (secret : String) : String :=
  String.ofList (secret.toList.drop (secret.toList.length - hintChars))

section Programs

variable (A : Aead) (kek : Bytes)

/-- `TenantDataKeyRepository.create_if_absent` -/
def createIfAbsent (wrappedKey : Bytes) : Tx Row := do
  let (row, _) ← getOrCreate .select (fun _ => id) .integrityError .dataKey (.dataKey wrappedKey)
  return row

def unwrapRow : Row → Tx Bytes
  | .dataKey wrappedKey => ofCrypto (unwrap A kek wrappedKey)
  | .credential _ _ => .raise .integrityError

/-- `_dek`: the key that is stored, not the one that has been generated. -/
def dek : Tx Bytes := do
  match ← query (.select .dataKey) with
  | some row => unwrapRow A kek row
  | none =>
    let key ← external (.tokenBytes keyBytes)
    let nonce ← external (.tokenBytes nonceBytes)
    let wrapped ← ofCrypto (wrap A kek nonce key)
    let created ← createIfAbsent wrapped
    unwrapRow A kek created

/-- `CredentialRepository.upsert` -/
def upsert (name : String) (ciphertext : Bytes) (hint : String) : Tx Row :=
  updateOrCreate .integrityError (.credential name) (.credential ciphertext hint)
    fun _ => .credential ciphertext hint

/-- `CredentialService.put` -/
def put (name secret : String) : Tx Result := unitOfWork do
  let key ← dek A kek
  let nonce ← external (.tokenBytes nonceBytes)
  let ciphertext ← ofCrypto (sealText A key nonce secret)
  let _ ← upsert name ciphertext (hintOf secret)
  return .view ⟨name, hintOf secret⟩

/-- `CredentialService.get_secret` -/
def getSecret (name : String) : Tx Result := unitOfWork do
  match ← query (.select (.credential name)) with
  | some (.credential ciphertext _) =>
    let key ← dek A kek
    let secret ← ofCrypto (openSealed A key ciphertext)
    return .secret secret
  | _ => .raise .notFound

/-- `CredentialService.delete` -/
def delete (name : String) : Tx Result := unitOfWork do
  let deleted ← query (.delete (.credential name))
  if deleted then return .done else .raise .notFound

structure World where
  random : Bytes
  commits : List Call

/-- Sessions of the service.  The statements of `put` and `delete` may fail. -/
def service : Server ℕ Key Row Entropy.Reply World Call CredentialError Result Bytes where
  program call := match call with
    | .put name secret => put A kek name secret
    | .getSecret name => getSecret A kek name
    | .delete name => delete name
  external _ _ e w := match e with
    | .tokenBytes n => if w.random.length = n then some (.ok w.random, w) else none
  fails call _ e := match call with
    | .getSecret _ => false
    | _ => decide (e = .operationalError)
  record _ call w := { w with commits := call :: w.commits }
  environment random w := some { w with random }

end Programs

/-- The value of the last committed `put` of a name, unless it has been deleted since. -/
def lastCommitted (name : String) : List Call → Option String
  | [] => none
  | .put name' secret :: earlier =>
    if name' = name then some secret else lastCommitted name earlier
  | .delete name' :: earlier => if name' = name then none else lastCommitted name earlier
  | .getSecret _ :: earlier => lastCommitted name earlier

section Invariant

variable (A : Aead) (kek : Bytes)

/-- The row of a data key that can be unwrapped. -/
def KeyRow (row : Row) (key : Bytes) : Prop :=
  ∃ wrappedKey, row = .dataKey wrappedKey ∧ unwrap A kek wrappedKey = .ok key ∧
    key.length = keyBytes

/-- A row of a credential that opens under a data key. -/
def Opens (key : Bytes) (row : Option Row) (secret : String) : Prop :=
  ∃ ciphertext hint, row = some (.credential ciphertext hint) ∧
    openSealed A key ciphertext = .ok secret

/-- The data key in the rows, and the credential of a name that opens under it. -/
def Readable (rows : Key → Option Row) (name secret : String) : Prop :=
  ∃ row key, rows .dataKey = some row ∧ KeyRow A kek row key ∧
    Opens A key (rows (.credential name)) secret

/-- The data key can be unwrapped and is never replaced; each credential opens to the last committed
value. -/
def envelope : Server.Claim ℕ Key Row World where
  holds d :=
    (∀ row, d.db.committed .dataKey = some row → ∃ key, KeyRow A kek row key) ∧
    ∀ name, match lastCommitted name d.world.commits with
      | none => d.db.committed (.credential name) = none
      | some secret => Readable A kek d.db.committed name secret
  later d d' :=
    (∀ row, d.db.committed .dataKey = some row → d'.db.committed .dataKey = some row) ∧
    d.world.commits <:+ d'.world.commits
  refl _ := ⟨fun _ h => h, List.suffix_rfl⟩
  trans h h' := ⟨fun row hrow => h'.1 row (h.1 row hrow), h.2.trans h'.2⟩

variable {A kek} {t : ℕ}

/-- A data key that a transaction has seen stays the same. -/
theorem view_dataKey_kept (row : Row) :
  Server.Kept (envelope A kek) t fun d => d.db.view t .dataKey = some row
  := by
  intro d d' _ _ later frame h
  by_cases hp : ∃ v, d.db.pending .dataKey = some (t, v)
  · obtain ⟨v, hp⟩ := hp
    rw [Db.view_of_pending hp] at h
    subst h
    exact frame.view hp
  · have free : ∀ v, d.db.pending .dataKey ≠ some (t, v) := fun v hv => hp ⟨v, hv⟩
    rw [Db.view_of_not_pending free] at h
    rw [Db.view_of_not_pending fun v hv => free v ((frame.pending _ _).mp hv)]
    exact later.1 row h

/-- What a call of `put` holds before it writes the credential: a data key at most. -/
structure HoldsKey (t : ℕ) (d : Data ℕ Key Row World) : Prop where
  credential : ∀ name v, d.db.pending (.credential name) ≠ some (t, v)
  dataKey : ∀ v, d.db.pending .dataKey = some (t, v) → d.db.committed .dataKey = none

theorem HoldsKey.of_idle {d : Data ℕ Key Row World} (idle : d.db.Idle t) : HoldsKey t d where
  credential name := idle (.credential name)
  dataKey v hp := absurd hp (idle _ v)

theorem HoldsKey.kept : Server.Kept (envelope A kek) t (HoldsKey t) := by
  intro d d' _ _ _ frame h
  constructor
  · intro name v hp
    exact h.credential name v ((frame.pending _ _).mp hp)
  · intro v hp
    have before := (frame.pending _ _).mp hp
    rw [frame.committed _ _ before]
    exact h.dataKey v before

end Invariant

section Outlines

variable {A : Aead} {kek : Bytes} (t : ℕ) (c : Call)

abbrev Outline {α : Type} (A : Aead) (kek : Bytes) (t : ℕ) (c : Call)
    (P : Data ℕ Key Row World → Prop) (p : Tx α)
    (Q : Except CredentialError α → Data ℕ Key Row World → Prop) : Prop :=
  Server.Outline (service A kek) (envelope A kek) Server.Guard.none t c P p Q

/-- A row of the data key that the session sees, while it holds no more than that. -/
def SeesKey (A : Aead) (kek : Bytes) (t : ℕ) (row : Row) (d : Data ℕ Key Row World) : Prop :=
  HoldsKey t d ∧ d.db.view t .dataKey = some row ∧ ∃ key, KeyRow A kek row key

theorem SeesKey.kept (row : Row) : Server.Kept (envelope A kek) t (SeesKey A kek t row) :=
  HoldsKey.kept.and ((view_dataKey_kept row).and (Server.Kept.const _))

/-- What a session without changes reads of the data key. -/
theorem selectKey_outline :
  Outline A kek t c (fun d => d.db.Idle t) (query (.select .dataKey))
    fun r d => ∀ found, r = .ok found →
      d.db.Idle t ∧ ∀ row, found = some row → SeesKey A kek t row d
  := by
  apply Server.Outline.reading Server.Kept.idle
  · intro d hd idle found hfound
    cases hfound
    refine ⟨idle, ?_⟩
    intro row hrow
    refine ⟨HoldsKey.of_idle idle, hrow, ?_⟩
    rw [idle.view] at hrow
    exact hd.1 row hrow
  · nofun
  · apply Server.Outline.kept_ok
    intro found
    apply Server.Kept.idle.and
    intro d d' hd hd' later frame h row hrow
    exact SeesKey.kept t row d d' hd hd' later frame (h row hrow)

theorem tokenBytes_outline {P : Data ℕ Key Row World → Prop}
    (hP : Server.Kept (envelope A kek) t P) (n : ℕ) :
  Outline A kek t c P (external (.tokenBytes n))
    fun r d => ∀ bytes, r = .ok bytes → bytes.length = n ∧ P d
  := by
  apply Server.Outline.external hP
  · intro d r w hd hP _ hr
    have reply : (if d.world.random.length = n then
        some (Except.ok (ε := CredentialError) d.world.random, d.world) else none) =
        some (r, w) := hr
    split at reply
    next hlength =>
      cases reply
      refine ⟨hd, (envelope A kek).refl _, ?_⟩
      rintro bytes hbytes
      cases hbytes
      exact ⟨hlength, hP⟩
    next => cases reply
  · nofun
  · apply Server.Outline.kept_ok
    intro bytes
    exact (Server.Kept.const _).and hP

/-- The insertion of the data key. -/
theorem insertKey_outline {wrapped key : Bytes} (good : KeyRow A kek (.dataKey wrapped) key) :
  Outline A kek t c (fun d => d.db.Idle t) (query (.insert .dataKey (.dataKey wrapped)))
    fun r d => ∀ inserted, r = .ok inserted →
      (inserted = true → SeesKey A kek t (.dataKey wrapped) d) ∧
        (inserted = false → d.db.Idle t)
  := by
  have other : ∀ name, Key.credential name ≠ .dataKey := fun _ h => nomatch h
  apply Server.Outline.query Server.Kept.idle
  · intro d r db hd idle _ hexec
    obtain ⟨rfl, free, absent, rfl⟩ | ⟨rfl, rfl, -⟩ := Db.exec_insert hexec
    · refine ⟨hd, (envelope A kek).refl _, ?_⟩
      rintro inserted ⟨⟩
      refine ⟨fun _ => ⟨?_, Db.view_write_self, key, good⟩, nofun⟩
      constructor
      · intro name v hp
        rw [Db.pending_write_of_ne (other name)] at hp
        exact idle _ v hp
      · intro v hp
        rw [idle.view] at absent
        exact absent
    · refine ⟨hd, (envelope A kek).refl _, ?_⟩
      rintro inserted ⟨⟩
      exact ⟨nofun, fun _ => idle⟩
  · nofun
  · apply Server.Outline.kept_ok
    intro inserted d d' hd hd' later frame h
    refine ⟨fun hr => ?_, fun hr => frame.idle (h.2 hr)⟩
    exact SeesKey.kept t _ d d' hd hd' later frame (h.1 hr)

/-- `create_if_absent` returns the row that is stored. -/
theorem createIfAbsent_outline {wrapped key : Bytes}
    (good : KeyRow A kek (.dataKey wrapped) key) :
  Outline A kek t c (fun d => d.db.Idle t) (createIfAbsent wrapped)
    fun r d => ∀ row, r = .ok row → SeesKey A kek t row d
  := by
  have get : Outline A kek t c (fun d => d.db.Idle t) (getOrCreate .select (fun _ => id)
      .integrityError .dataKey (.dataKey wrapped))
      fun r d => ∀ x : Row × Bool, r = .ok x → SeesKey A kek t x.1 d := by
    apply Server.Outline.getOrCreate (A := fun d => d.db.Idle t) (F := fun d => d.db.Idle t)
    · apply (selectKey_outline t c).conseq (fun _ _ h => h)
      intro r d _ h found hfound
      exact ⟨(h found hfound).2, fun _ => (h found hfound).1⟩
    · exact insertKey_outline t c good
    · apply (selectKey_outline t c).conseq (fun _ _ h => h)
      intro r d _ h found hfound
      exact (h found hfound).2
    · exact fun x => SeesKey.kept t x.1
  unfold createIfAbsent
  apply Server.Outline.bind get
  · rintro ⟨row, created⟩
    apply Server.Outline.pure
    · apply Server.Outline.kept_ok fun x : Row × Bool => SeesKey.kept t x.1
    · intro d _ h row' hrow'
      cases hrow'
      exact h _ rfl
  · nofun

/-- Unwrapping a row that the session sees. -/
theorem unwrapRow_outline {P : Data ℕ Key Row World → Prop}
    (hP : Server.Kept (envelope A kek) t P) {row : Row} {key : Bytes} (good : KeyRow A kek row key) :
  Outline A kek t c P (unwrapRow A kek row) fun r d => r = .ok key ∧ P d
  := by
  obtain ⟨wrapped, rfl, hunwrap, -⟩ := good
  rw [unwrapRow, hunwrap]
  apply Server.Outline.pure hP
  exact fun d _ h => ⟨rfl, h⟩

/-- What `_dek` leaves: the key of the row that the session sees. -/
def HasKey (A : Aead) (kek : Bytes) (t : ℕ) (key : Bytes) (d : Data ℕ Key Row World) : Prop :=
  HoldsKey t d ∧ ∃ row, d.db.view t .dataKey = some row ∧ KeyRow A kek row key

theorem HasKey.kept (key : Bytes) : Server.Kept (envelope A kek) t (HasKey A kek t key) := by
  rintro d d' hd hd' later frame ⟨holds, row, hrow, good⟩
  exact ⟨HoldsKey.kept d d' hd hd' later frame holds, row,
    view_dataKey_kept row d d' hd hd' later frame hrow, good⟩

theorem seen_outline (row : Row) :
  Outline A kek t c (SeesKey A kek t row) (unwrapRow A kek row)
    fun r d => ∀ key, r = .ok key → HasKey A kek t key d
  := by
  constructor
  rintro d ⟨hd, hsees⟩
  obtain ⟨key, good⟩ := hsees.2.2
  have kept : Server.Kept (envelope A kek) t (SeesKey A kek t row) := SeesKey.kept t row
  have outline := unwrapRow_outline t c kept good
  apply (outline.safe d ⟨hd, hsees⟩).mono
  rintro r d' ⟨hd', rfl, hsees'⟩
  refine ⟨hd', ?_⟩
  rintro key' ⟨⟩
  exact ⟨hsees'.1, row, hsees'.2.1, good⟩

theorem dek_outline (opens : A.Opens) (hkek : kek.length = keyBytes) :
  Outline A kek t c (fun d => d.db.Idle t) (dek A kek)
    fun r d => ∀ key, r = .ok key → HasKey A kek t key d
  := by
  unfold dek
  apply Server.Outline.bind (selectKey_outline t c)
  · intro found
    cases found with
    | some row =>
      apply (seen_outline t c row).conseq
      · exact fun d _ h => (h _ rfl).2 row rfl
      · exact fun _ _ _ h => h
    | none =>
      apply Server.Outline.bind
      · apply (tokenBytes_outline t c Server.Kept.idle keyBytes).conseq
        · exact fun d _ h => (h _ rfl).1
        · exact fun _ _ _ h => h
      · intro key
        apply Server.Outline.conseq _ (fun d _ h => h key rfl) fun _ _ _ h => h
        apply Server.Outline.assume
        intro hlength
        apply Server.Outline.bind (tokenBytes_outline t c Server.Kept.idle nonceBytes)
        · intro nonce
          apply Server.Outline.conseq _ (fun d _ h => h nonce rfl) fun _ _ _ h => h
          apply Server.Outline.assume
          intro hnonce
          obtain ⟨wrapped, hwrap, hunwrap⟩ := unwrap_wrap opens hkek hnonce key
          rw [hwrap]
          apply Server.Outline.bind (Q := fun r d => r = .ok wrapped ∧ d.db.Idle t)
          · apply Server.Outline.pure Server.Kept.idle
            exact fun d _ h => ⟨rfl, h⟩
          · intro wrapped'
            apply Server.Outline.assume
            rintro ⟨⟩
            apply Server.Outline.bind
            · exact createIfAbsent_outline t c ⟨wrapped, rfl, hunwrap, hlength⟩
            · intro row
              apply (seen_outline t c row).conseq
              · exact fun d _ h => h row rfl
              · exact fun _ _ _ h => h
            · nofun
          · rintro e d - ⟨⟨⟩, -⟩
        · nofun
      · nofun
  · nofun

/-- What a call of `put` holds when it has locked or written the credential. -/
structure HoldsCredential (A : Aead) (kek : Bytes) (t : ℕ) (key : Bytes) (name : String)
    (P : Option Row → Prop) (d : Data ℕ Key Row World) : Prop where
  credential : ∃ v, d.db.pending (.credential name) = some (t, v) ∧ P v
  others : ∀ name' v, d.db.pending (.credential name') = some (t, v) → name' = name
  dataKey : ∀ v, d.db.pending .dataKey = some (t, v) → d.db.committed .dataKey = none
  key : ∃ row, d.db.view t .dataKey = some row ∧ KeyRow A kek row key

section Credential

variable {key : Bytes} {name : String} {P : Option Row → Prop}

theorem HoldsCredential.kept :
  Server.Kept (envelope A kek) t (HoldsCredential A kek t key name P)
  := by
  intro d d' hd hd' later frame h
  constructor
  · obtain ⟨v, hp, hv⟩ := h.credential
    exact ⟨v, (frame.pending _ _).mpr hp, hv⟩
  · intro name' v hp
    exact h.others name' v ((frame.pending _ _).mp hp)
  · intro v hp
    have before := (frame.pending _ _).mp hp
    rw [frame.committed _ _ before]
    exact h.dataKey v before
  · obtain ⟨row, hrow, good⟩ := h.key
    exact ⟨row, view_dataKey_kept row d d' hd hd' later frame hrow, good⟩

theorem HoldsCredential.of_write {d : Data ℕ Key Row World} {world : World} {v : Option Row}
    (hv : P v)
    (others : ∀ name' v, d.db.pending (.credential name') = some (t, v) → name' = name)
    (dataKey : ∀ v, d.db.pending .dataKey = some (t, v) → d.db.committed .dataKey = none)
    (hkey : ∃ row, d.db.view t .dataKey = some row ∧ KeyRow A kek row key) :
  HoldsCredential A kek t key name P ⟨d.db.write t (.credential name) v, world⟩
  := by
  have other : Key.dataKey ≠ .credential name := fun h => nomatch h
  constructor
  · exact ⟨v, Db.pending_write_self, hv⟩
  · intro name' v' hp
    by_cases hname : name' = name
    · exact hname
    · rw [Db.pending_write_of_ne fun h => hname (Key.credential.inj h)] at hp
      exact others name' v' hp
  · rw [Db.pending_write_of_ne other]
    exact dataKey
  · rw [Db.view_write_of_ne other]
    exact hkey

theorem HasKey.write {d : Data ℕ Key Row World} {world : World} {v : Option Row}
    (h : HasKey A kek t key d) (hv : P v) :
  HoldsCredential A kek t key name P ⟨d.db.write t (.credential name) v, world⟩
  := by
  apply HoldsCredential.of_write t hv
  · exact fun name' v hp => absurd hp (h.1.credential name' v)
  · exact h.1.dataKey
  · exact h.2

theorem lockCredential_outline :
  Outline A kek t c (HasKey A kek t key) (query (.selectForUpdate (.credential name)))
    fun r d => ∀ found, r = .ok found →
      (∀ row, found = some row → HoldsCredential A kek t key name (fun _ => True) d) ∧
        (found = none → HasKey A kek t key d)
  := by
  apply Server.Outline.query (HasKey.kept t key)
  · intro d r db hd h _ hexec
    obtain ⟨rfl, rfl, -⟩ | ⟨v, rfl, -, -, rfl⟩ := Db.exec_selectForUpdate hexec
    · refine ⟨hd, (envelope A kek).refl _, ?_⟩
      rintro found ⟨⟩
      exact ⟨nofun, fun _ => h⟩
    · refine ⟨hd, (envelope A kek).refl _, ?_⟩
      rintro found ⟨⟩
      exact ⟨fun _ _ => h.write t trivial, nofun⟩
  · nofun
  · apply Server.Outline.kept_ok
    intro found d d' hd hd' later frame h
    refine ⟨fun row hrow => ?_, fun hrow => ?_⟩
    · exact HoldsCredential.kept t d d' hd hd' later frame (h.1 row hrow)
    · exact HasKey.kept t key d d' hd hd' later frame (h.2 hrow)

theorem insertCredential_outline {row : Row} (hrow : P (some row)) :
  Outline A kek t c (HasKey A kek t key) (query (.insert (.credential name) row))
    fun r d => ∀ inserted, r = .ok inserted →
      (inserted = true → HoldsCredential A kek t key name P d) ∧
        (inserted = false → HasKey A kek t key d)
  := by
  apply Server.Outline.query (HasKey.kept t key)
  · intro d r db hd h _ hexec
    obtain ⟨rfl, -, -, rfl⟩ | ⟨rfl, rfl, -⟩ := Db.exec_insert hexec
    · refine ⟨hd, (envelope A kek).refl _, ?_⟩
      rintro inserted ⟨⟩
      exact ⟨fun _ => h.write t hrow, nofun⟩
    · refine ⟨hd, (envelope A kek).refl _, ?_⟩
      rintro inserted ⟨⟩
      exact ⟨nofun, fun _ => h⟩
  · nofun
  · apply Server.Outline.kept_ok
    intro inserted d d' hd hd' later frame h
    refine ⟨fun hr => ?_, fun hr => ?_⟩
    · exact HoldsCredential.kept t d d' hd hd' later frame (h.1 hr)
    · exact HasKey.kept t key d d' hd hd' later frame (h.2 hr)

theorem saveCredential_outline {row : Row} (hrow : P (some row)) :
  Outline A kek t c (HoldsCredential A kek t key name fun _ => True)
    (query (.update (.credential name) fun _ => row))
    fun r d => ∀ saved, r = .ok saved → saved = true → HoldsCredential A kek t key name P d
  := by
  apply Server.Outline.query (HoldsCredential.kept t)
  · intro d r db hd h _ hexec
    obtain ⟨rfl, rfl, -⟩ | ⟨v, rfl, -, -, rfl⟩ := Db.exec_update hexec
    · refine ⟨hd, (envelope A kek).refl _, ?_⟩
      rintro saved ⟨⟩
      nofun
    · refine ⟨hd, (envelope A kek).refl _, ?_⟩
      rintro saved - -
      exact HoldsCredential.of_write t hrow h.others h.dataKey h.key
  · nofun
  · apply Server.Outline.kept_ok
    intro saved d d' hd hd' later frame h hsaved
    exact HoldsCredential.kept t d d' hd hd' later frame (h hsaved)

theorem upsert_outline {ciphertext : Bytes} {hint : String}
    (hrow : P (some (.credential ciphertext hint))) :
  Outline A kek t c (HasKey A kek t key) (upsert name ciphertext hint)
    fun r d => ∀ row, r = .ok row → HoldsCredential A kek t key name P d
  := by
  unfold upsert updateOrCreate
  apply Server.Outline.bind (Q := fun r d => ∀ x : Row × Bool, r = .ok x →
    HoldsCredential A kek t key name (if x.2 then P else fun _ => True) d)
  · apply Server.Outline.getOrCreate (A := HasKey A kek t key) (F := HasKey A kek t key)
    · exact lockCredential_outline t c
    · exact insertCredential_outline t c hrow
    · apply (lockCredential_outline t c).conseq (fun _ _ h => h)
      exact fun r d _ h found hfound => (h found hfound).1
    · exact fun x => HoldsCredential.kept t
  · rintro ⟨row, created⟩
    apply Server.Outline.conseq _ (fun d _ h => h _ rfl) fun _ _ _ h => h
    cases created with
    | true =>
      apply Server.Outline.pure (HoldsCredential.kept t)
      exact fun d _ h _ _ => h
    | false =>
      apply Server.Outline.bind (saveCredential_outline t c hrow)
      · intro saved
        cases saved with
        | true =>
          apply Server.Outline.conseq _ (fun d _ h => h true rfl rfl) fun _ _ _ h => h
          apply Server.Outline.pure (HoldsCredential.kept t)
          exact fun d _ h _ _ => h
        | false =>
          apply Server.Outline.conseq (P := fun _ => True) _ (fun _ _ _ => trivial)
            fun _ _ _ h => h
          apply Server.Outline.raise (Server.Kept.const _)
          nofun
      · nofun
  · nofun

end Credential

/-- The commit of a call of `put`. -/
theorem HoldsCredential.commit {key : Bytes} {name secret : String} {d : Data ℕ Key Row World}
    (hd : (envelope A kek).holds d)
    (h : HoldsCredential A kek t key name (fun v => Opens A key v secret) d) :
  (envelope A kek).holds ⟨d.db.commit t, { d.world with
      commits := .put name secret :: d.world.commits }⟩ ∧
    (envelope A kek).later d ⟨d.db.commit t, { d.world with
      commits := .put name secret :: d.world.commits }⟩
  := by
  obtain ⟨row, hrow, good⟩ := h.key
  obtain ⟨v, hv, opens⟩ := h.credential
  have same : ∀ row', d.db.committed .dataKey = some row' → d.db.view t .dataKey = some row' := by
    intro row' hrow'
    rw [Db.view_of_not_pending, hrow']
    intro v' hp
    rw [h.dataKey v' hp] at hrow'
    cases hrow'
  refine ⟨⟨?_, ?_⟩, same, List.suffix_cons _ _⟩
  · intro row' hrow'
    rw [Db.committed_commit, hrow] at hrow'
    cases hrow'
    exact ⟨key, good⟩
  · intro name'
    rw [lastCommitted, Db.committed_commit]
    by_cases hname : name = name'
    · subst hname
      rw [if_pos rfl]
      refine ⟨row, key, hrow, good, ?_⟩
      rw [Db.view_of_pending hv]
      exact opens
    · rw [if_neg hname]
      have view : d.db.view t (.credential name') = d.db.committed (.credential name') := by
        apply Db.view_of_not_pending
        intro v' hp
        exact hname (h.others name' v' hp).symm
      have before := hd.2 name'
      cases hlast : lastCommitted name' d.world.commits with
      | none =>
        simp only [hlast] at before
        exact view.trans before
      | some secret' =>
        simp only [hlast] at before
        obtain ⟨row', key', hrow', good', opens'⟩ := before
        refine ⟨row', key', same row' hrow', good', ?_⟩
        rw [view]
        exact opens'

theorem put_body_outline (opens : A.Opens) (hkek : kek.length = keyBytes) (name secret : String) :
  Outline A kek t c (fun d => d.db.Idle t) (do
      let key ← dek A kek
      let nonce ← external (.tokenBytes nonceBytes)
      let ciphertext ← ofCrypto (sealText A key nonce secret)
      let _ ← upsert name ciphertext (hintOf secret)
      return .view ⟨name, hintOf secret⟩)
    fun r d => ∀ result : Result, r = .ok result →
      ∃ key, HoldsCredential A kek t key name (fun v => Opens A key v secret) d
  := by
  apply Server.Outline.bind (dek_outline t c opens hkek)
  · intro key
    apply Server.Outline.bind
    · apply (tokenBytes_outline t c (HasKey.kept t key) nonceBytes).conseq
      · exact fun d _ h => h key rfl
      · exact fun _ _ _ h => h
    · intro nonce
      apply Server.Outline.conseq (P := fun d => (nonce.length = nonceBytes ∧
        key.length = keyBytes) ∧ HasKey A kek t key d) _ _ fun _ _ _ h => h
      · apply Server.Outline.assume
        rintro ⟨hnonce, hkey⟩
        obtain ⟨ciphertext, hseal, hopen⟩ := open_sealText opens hkey hnonce secret
        rw [hseal]
        apply Server.Outline.bind (Q := fun r d => r = .ok ciphertext ∧ HasKey A kek t key d)
        · apply Server.Outline.pure (HasKey.kept t key)
          exact fun d _ h => ⟨rfl, h⟩
        · intro ciphertext'
          apply Server.Outline.assume
          rintro ⟨⟩
          apply Server.Outline.bind
          · apply upsert_outline t c (P := fun v => Opens A key v secret)
            exact ⟨ciphertext, hintOf secret, rfl, hopen⟩
          · intro row
            apply Server.Outline.conseq _ (fun d _ h => h row rfl) fun _ _ _ h => h
            apply Server.Outline.pure (HoldsCredential.kept t)
            exact fun d _ h _ _ => ⟨key, h⟩
          · nofun
        · rintro e d - ⟨⟨⟩, -⟩
      · intro d _ h
        obtain ⟨hnonce, haskey⟩ := h nonce rfl
        obtain ⟨-, row, -, wrapped, -, -, hkey⟩ := id haskey
        exact ⟨⟨hnonce, hkey⟩, haskey⟩
    · nofun
  · nofun

/-- What a call of `delete` holds when it has deleted the credential. -/
def HoldsDeleted (t : ℕ) (name : String) (d : Data ℕ Key Row World) : Prop :=
  d.db.pending (.credential name) = some (t, none) ∧
    ∀ k v, d.db.pending k = some (t, v) → k = .credential name

theorem HoldsDeleted.kept (name : String) :
  Server.Kept (envelope A kek) t (HoldsDeleted t name)
  := by
  rintro d d' - - - frame ⟨hp, others⟩
  exact ⟨(frame.pending _ _).mpr hp, fun k v hv => others k v ((frame.pending _ _).mp hv)⟩

theorem delete_body_outline (name : String) :
  Outline A kek t c (fun d => d.db.Idle t) (do
      let deleted ← query (.delete (.credential name))
      if deleted then return .done else .raise .notFound)
    fun r d => ∀ result : Result, r = .ok result → HoldsDeleted t name d
  := by
  apply Server.Outline.bind (Q := fun r d => r = .ok true → HoldsDeleted t name d)
  · apply Server.Outline.query Server.Kept.idle
    · intro d r db hd idle _ hexec
      obtain ⟨rfl, rfl, -⟩ | ⟨v, rfl, -, -, rfl⟩ := Db.exec_delete hexec
      · exact ⟨hd, (envelope A kek).refl _, nofun⟩
      · refine ⟨hd, (envelope A kek).refl _, fun _ => ⟨Db.pending_write_self, ?_⟩⟩
        intro k v' hp
        by_cases hk : k = .credential name
        · exact hk
        · rw [Db.pending_write_of_ne hk] at hp
          exact absurd hp (idle k v')
    · nofun
    · intro r d d' hd hd' later frame h hr
      exact HoldsDeleted.kept t name d d' hd hd' later frame (h hr)
  · intro deleted
    cases deleted with
    | true =>
      apply Server.Outline.conseq _ (fun d _ h => h rfl) fun _ _ _ h => h
      apply Server.Outline.pure (HoldsDeleted.kept t name)
      exact fun d _ h _ _ => h
    | false =>
      apply Server.Outline.conseq (P := fun _ => True) _ (fun _ _ _ => trivial) fun _ _ _ h => h
      apply Server.Outline.raise (Server.Kept.const _)
      nofun
  · nofun

theorem HoldsDeleted.commit {name : String} {d : Data ℕ Key Row World}
    (hd : (envelope A kek).holds d) (h : HoldsDeleted t name d) :
  (envelope A kek).holds ⟨d.db.commit t, { d.world with
      commits := .delete name :: d.world.commits }⟩ ∧
    (envelope A kek).later d ⟨d.db.commit t, { d.world with
      commits := .delete name :: d.world.commits }⟩
  := by
  have view : ∀ k, k ≠ .credential name → d.db.view t k = d.db.committed k := by
    intro k hk
    apply Db.view_of_not_pending
    intro v hp
    exact hk (h.2 k v hp)
  have dataKey := view .dataKey (fun h => nomatch h)
  refine ⟨⟨?_, ?_⟩, ?_, List.suffix_cons _ _⟩
  · intro row hrow
    rw [Db.committed_commit, dataKey] at hrow
    exact hd.1 row hrow
  · intro name'
    rw [lastCommitted, Db.committed_commit]
    by_cases hname : name = name'
    · subst hname
      rw [if_pos rfl]
      exact Db.view_of_pending h.1
    · rw [if_neg hname]
      have same := view (.credential name') fun h => hname (Key.credential.inj h).symm
      have before := hd.2 name'
      cases hlast : lastCommitted name' d.world.commits with
      | none =>
        simp only [hlast] at before
        exact same.trans before
      | some secret =>
        simp only [hlast] at before
        obtain ⟨row, key, hrow, good, opens⟩ := before
        refine ⟨row, key, dataKey.trans hrow, good, ?_⟩
        rw [same]
        exact opens
  · intro row hrow
    exact dataKey.trans hrow

/-- The outcome of `get_secret` is right for a moment of the call. -/
def GetResult (name : String) (begun : List Call) (r : Except CredentialError Result)
    (d : Data ℕ Key Row World) : Prop :=
  ∃ moment, begun <:+ moment ∧ moment <:+ d.world.commits ∧
    r = match lastCommitted name moment with
      | some secret => .ok (.secret secret)
      | none => .error .notFound

theorem GetResult.kept (name : String) (begun : List Call) (r : Except CredentialError Result) :
  Server.Kept (envelope A kek) t (GetResult name begun r)
  := by
  rintro d d' - - later - ⟨moment, hbegun, hmoment, hr⟩
  exact ⟨moment, hbegun, hmoment.trans later.2, hr⟩

/-- What `get_secret` knows when it has read the credential. -/
def ReadCredential (A : Aead) (kek : Bytes) (name : String) (begun : List Call)
    (found : Option Row) (d : Data ℕ Key Row World) : Prop :=
  ∃ moment, begun <:+ moment ∧ moment <:+ d.world.commits ∧
    match lastCommitted name moment with
    | none => found = none
    | some secret => ∃ row key, d.db.committed .dataKey = some row ∧ KeyRow A kek row key ∧
        Opens A key found secret

theorem ReadCredential.kept (name : String) (begun : List Call) (found : Option Row) :
  Server.Kept (envelope A kek) t (ReadCredential A kek name begun found)
  := by
  rintro d d' - - later - ⟨moment, hbegun, hmoment, h⟩
  refine ⟨moment, hbegun, hmoment.trans later.2, ?_⟩
  cases hlast : lastCommitted name moment with
  | none =>
    simp only [hlast] at h
    exact h
  | some secret =>
    simp only [hlast] at h
    obtain ⟨row, key, hrow, rest⟩ := h
    exact ⟨row, key, later.1 row hrow, rest⟩

/-- `_dek` where the data key is known. -/
theorem dek_outline_of_known {P : Data ℕ Key Row World → Prop}
    (hP : Server.Kept (envelope A kek) t P) {name : String} {row : Row} {key : Bytes}
    (good : KeyRow A kek row key) :
  Outline A kek t (.getSecret name)
    (fun d => d.db.Idle t ∧ d.db.committed .dataKey = some row ∧ P d) (dek A kek)
    fun r d => r = .ok key ∧ d.db.Idle t ∧ P d
  := by
  unfold dek
  apply Server.Outline.bind (Q := fun r d => r = .ok (some row) ∧ d.db.Idle t ∧ P d)
  · apply Server.Outline.reading
    · rintro d d' hd hd' later frame ⟨idle, hrow, h⟩
      exact ⟨frame.idle idle, later.1 row hrow, hP d d' hd hd' later frame h⟩
    · rintro d - ⟨idle, hrow, h⟩
      rw [idle.view, hrow]
      exact ⟨rfl, idle, h⟩
    · intro d e h
      cases h
    · exact fun r => (Server.Kept.const _).and (Server.Kept.idle.and hP)
  · intro found
    apply Server.Outline.assume
    rintro ⟨⟩
    exact unwrapRow_outline t _ (Server.Kept.idle.and hP) good
  · rintro e d - ⟨⟨⟩, -⟩

theorem get_body_outline (name : String) (begun : List Call) :
  Outline A kek t (.getSecret name)
    (fun d => d.db.Idle t ∧ begun <:+ d.world.commits) (do
      match ← query (.select (.credential name)) with
      | some (.credential ciphertext _) =>
        let key ← dek A kek
        let secret ← ofCrypto (openSealed A key ciphertext)
        return .secret secret
      | _ => .raise .notFound)
    fun r d => d.db.Idle t ∧ GetResult name begun r d
  := by
  have keptBegun : Server.Kept (envelope A kek) t
      fun d => d.db.Idle t ∧ begun <:+ d.world.commits := by
    rintro d d' - - later frame ⟨idle, hbegun⟩
    exact ⟨frame.idle idle, hbegun.trans later.2⟩
  apply Server.Outline.bind (Q := fun r d => ∃ found, r = .ok found ∧ d.db.Idle t ∧
    ReadCredential A kek name begun found d)
  · apply Server.Outline.reading keptBegun
    · rintro d hd ⟨idle, hbegun⟩
      refine ⟨_, rfl, idle, d.world.commits, hbegun, List.suffix_rfl, ?_⟩
      have now := hd.2 name
      rw [idle.view]
      cases hlast : lastCommitted name d.world.commits with
      | none =>
        simp only [hlast] at now
        exact now
      | some secret =>
        simp only [hlast] at now
        exact now
    · intro d e h
      cases h
    · rintro r d d' hd hd' later frame ⟨found, hr, idle, read⟩
      exact ⟨found, hr, frame.idle idle,
        ReadCredential.kept t name begun found d d' hd hd' later frame read⟩
  · intro found
    apply Server.Outline.conseq (P := fun d => ∃ moment, begun <:+ moment ∧ d.db.Idle t ∧
      moment <:+ d.world.commits ∧ match lastCommitted name moment with
        | none => found = none
        | some secret => ∃ row key, d.db.committed .dataKey = some row ∧ KeyRow A kek row key ∧
            Opens A key found secret) _ _ fun _ _ _ h => h
    · apply Server.Outline.of_exists
      intro moment
      apply Server.Outline.assume
      intro hbegun
      have kept : Server.Kept (envelope A kek) t fun d => moment <:+ d.world.commits :=
        fun d d' _ _ later _ h => h.trans later.2
      cases hlast : lastCommitted name moment with
      | none =>
        apply Server.Outline.conseq (P := fun d => found = none ∧ d.db.Idle t ∧
          moment <:+ d.world.commits) _ (fun d _ h => ⟨h.2.2, h.1, h.2.1⟩) fun _ _ _ h => h
        apply Server.Outline.assume
        rintro rfl
        apply Server.Outline.raise (Server.Kept.idle.and kept)
        rintro d - ⟨idle, hmoment⟩
        refine ⟨idle, moment, hbegun, hmoment, ?_⟩
        rw [hlast]
      | some secret =>
        apply Server.Outline.conseq (P := fun d => ∃ x : Row × Bytes,
          (KeyRow A kek x.1 x.2 ∧ Opens A x.2 found secret) ∧ d.db.Idle t ∧
            d.db.committed .dataKey = some x.1 ∧ moment <:+ d.world.commits) _ _ fun _ _ _ h => h
        · apply Server.Outline.of_exists
          rintro ⟨row, key⟩
          apply Server.Outline.assume
          rintro ⟨good, ciphertext, hint, rfl, hopen⟩
          apply Server.Outline.bind (dek_outline_of_known t kept good)
          · intro key'
            apply Server.Outline.assume
            rintro ⟨⟩
            rw [hopen]
            apply Server.Outline.bind (Q := fun r d => r = .ok secret ∧ d.db.Idle t ∧
              moment <:+ d.world.commits)
            · apply Server.Outline.pure (Server.Kept.idle.and kept)
              exact fun d _ h => ⟨rfl, h⟩
            · intro secret'
              apply Server.Outline.assume
              rintro ⟨⟩
              apply Server.Outline.pure (Server.Kept.idle.and kept)
              rintro d - ⟨idle, hmoment⟩
              refine ⟨idle, moment, hbegun, hmoment, ?_⟩
              rw [hlast]
            · rintro e d - ⟨⟨⟩, -⟩
          · rintro e d - ⟨⟨⟩, -⟩
        · rintro d - ⟨idle, hmoment, row, key, hrow, good, opens⟩
          exact ⟨⟨row, key⟩, ⟨good, opens⟩, idle, hrow, hmoment⟩
    · rintro d - ⟨found', ⟨⟩, idle, moment, hbegun, hmoment, h⟩
      exact ⟨moment, hbegun, idle, hmoment, h⟩
  · rintro e d - ⟨found, ⟨⟩, -⟩

/-- What a call ends with. -/
def Ends (t : ℕ) (call : Call) (begun : World) (r : Except CredentialError Result)
    (d : Data ℕ Key Row World) : Prop :=
  d.db.Idle t ∧ ∀ name, call = .getSecret name → GetResult name begun.commits r d

theorem Ends.kept (call : Call) (begun : World) (r : Except CredentialError Result) :
  Server.Kept (envelope A kek) t (Ends t call begun r)
  := by
  apply Server.Kept.idle.and
  intro d d' hd hd' later frame h name hname
  exact GetResult.kept t name begun.commits r d d' hd hd' later frame (h name hname)

theorem service_outlined (opens : A.Opens) (hkek : kek.length = keyBytes) :
  Server.Outlined (service A kek) (envelope A kek) Server.Guard.none Ends
  := by
  constructor
  · intro t call w
    cases call with
    | put name secret =>
      apply Server.Outline.conseq _ (fun d _ h => h.1) fun _ _ _ h => h
      apply Server.Outline.unitOfWork (put_body_outline t _ opens hkek name secret)
      · apply Server.Outline.kept_ok
        rintro result d d' hd hd' later frame ⟨key, h⟩
        exact ⟨key, HoldsCredential.kept t d d' hd hd' later frame h⟩
      · intro result d hd h _
        obtain ⟨key, h⟩ := h result rfl
        obtain ⟨hholds, hlater⟩ := h.commit t hd
        exact ⟨hholds, hlater, Db.idle_commit _, nofun⟩
      · intro e d hd _
        exact ⟨hd, ⟨fun _ h => h, List.suffix_rfl⟩, Db.idle_rollback _, nofun⟩
      · exact fun r => Ends.kept t _ w r
    | getSecret name =>
      have start : ∀ d : Data ℕ Key Row World, (envelope A kek).holds d →
          d.db.Idle t ∧ True ∧ d.world = w → d.db.Idle t ∧ w.commits <:+ d.world.commits := by
        rintro d - ⟨idle, -, rfl⟩
        exact ⟨idle, List.suffix_rfl⟩
      have ends : ∀ r d, d.db.Idle t ∧ GetResult name w.commits r d →
          Ends t (.getSecret name) w r d := by
        rintro r d ⟨idle, result⟩
        refine ⟨idle, ?_⟩
        rintro name' ⟨⟩
        exact result
      apply Server.Outline.conseq _ start fun _ _ _ h => h
      apply Server.Outline.unitOfWork (get_body_outline t name w.commits)
      · exact fun r => Server.Kept.idle.and (GetResult.kept t name w.commits r)
      · rintro result d hd ⟨idle, moment, hbegun, hmoment, hr⟩ -
        have later := hmoment.trans (List.suffix_cons (.getSecret name) d.world.commits)
        refine ⟨?_, ⟨?_, List.suffix_cons _ _⟩,
          ends _ _ ⟨Db.idle_commit _, moment, hbegun, later, hr⟩⟩
        · constructor
          · intro row hrow
            rw [Db.committed_commit, idle.view] at hrow
            exact hd.1 row hrow
          · intro name'
            rw [Db.committed_commit, idle.view]
            exact hd.2 name'
        · intro row hrow
          rw [Db.committed_commit, idle.view]
          exact hrow
      · rintro e d hd ⟨idle, result⟩
        exact ⟨hd, ⟨fun _ h => h, List.suffix_rfl⟩, ends _ _ ⟨Db.idle_rollback _, result⟩⟩
      · exact fun r => Ends.kept t _ w r
    | delete name =>
      apply Server.Outline.conseq _ (fun d _ h => h.1) fun _ _ _ h => h
      apply Server.Outline.unitOfWork (delete_body_outline t _ name)
      · apply Server.Outline.kept_ok
        exact fun result => HoldsDeleted.kept t name
      · intro result d hd h _
        obtain ⟨hholds, hlater⟩ := (h result rfl).commit t hd
        exact ⟨hholds, hlater, Db.idle_commit _, nofun⟩
      · intro e d hd _
        exact ⟨hd, ⟨fun _ h => h, List.suffix_rfl⟩, Db.idle_rollback _, nofun⟩
      · exact fun r => Ends.kept t _ w r
  · exact fun t call w r d h => h.1
  · intro random d w hd hw
    cases hw
    exact ⟨hd, fun _ h => h, List.suffix_rfl⟩

end Outlines

section Runs

abbrev CredentialsState := State ℕ Key Row Entropy.Reply World Call CredentialError Result

abbrev CredentialsAction := Action ℕ Call CredentialError Bytes

/-- A tenant that has stored nothing yet. -/
def Unused (d : Data ℕ Key Row World) : Prop :=
  (∀ k, d.db.committed k = none) ∧ d.world.commits = []

theorem envelope_of_unused (A : Aead) (kek : Bytes) {d : Data ℕ Key Row World} (h : Unused d) :
  (envelope A kek).holds d
  := by
  constructor
  · intro row hrow
    rw [h.1] at hrow
    cases hrow
  · intro name
    rw [h.2]
    exact h.1 _

variable {A : Aead} {kek : Bytes} {h : List (CredentialsState × CredentialsAction)}
  {s : CredentialsState}

/-- In every run of calls of one tenant the data key is never replaced once it is committed, and
each `get_secret` returns the value that was the last one to be committed at a moment of the call,
or raises that there was none; it never fails to decrypt. -/
theorem get_secret_consistent (opens : A.Opens) (hkek : kek.length = keyBytes)
    (run : ((service A kek).machine Unused).Run h s) :
  (∀ u ∈ Machine.states h s, ∀ row, u.data.db.committed .dataKey = some row →
    s.data.db.committed .dataKey = some row) ∧
  ∀ t x name r, s.sessions t = some x → x.call = .getSecret name → x.program.outcome = some r →
    ∃ moment, x.begun.commits <:+ moment ∧ moment <:+ s.data.world.commits ∧
      r = match lastCommitted name moment with
        | some secret => .ok (.secret secret)
        | none => .error .notFound
  := by
  have outlined := service_outlined (A := A) opens hkek
  have guard : ∀ x ∈ h, Server.Guard.none.Holds x.1 x.2 :=
    fun x _ => Server.Guard.holds_none x.1 x.2
  have sound := Server.sound_of_run outlined (fun _ => envelope_of_unused A kek) run guard
  constructor
  · intro u hu
    exact (Server.later_of_run outlined (fun _ => envelope_of_unused A kek) run guard u hu).1
  · intro t x name r hx hcall hr
    exact (sound.outcome hx hr).2 name hcall

/-- An encryption that can be computed: the key and the nonce stand before the data. -/
def plainAead : Aead where
  encrypt key nonce data := key ++ nonce ++ data
  decrypt key nonce blob :=
    if (key ++ nonce).isPrefixOf blob then some (blob.drop (key ++ nonce).length) else none

theorem plainAead_opens : plainAead.Opens := by
  intro key nonce data
  have isPrefix : (key ++ nonce).isPrefixOf (key ++ nonce ++ data) = true := by
    rw [List.isPrefixOf_iff_prefix]
    apply List.prefix_append
  exact (if_pos isPrefix).trans (congrArg some List.drop_left)

/-- Two first calls of `put` that both generate a data key, and a call of `get_secret` for the
credential of the one whose key has not been stored. -/
theorem get_secret_consistent_two_puts :
  ∃ h s x, ((service plainAead (List.replicate 32 0)).machine Unused).Run h s ∧
    s.sessions 3 = some x ∧ x.program.outcome = some (.ok (.secret "s2")) ∧
    ∃ moment, x.begun.commits <:+ moment ∧ moment <:+ s.data.world.commits ∧
      lastCommitted "gemini_api_key" moment = some "s2"
  := by
  obtain ⟨h, s, run, result⟩ :=
    ((service plainAead (List.replicate 32 0)).machine Unused).exists_run_of_exec
      [.start 1 (.put "openai_api_key" "s1"), .start 2 (.put "gemini_api_key" "s2"), .step 1,
        .step 2, .environment (List.replicate 32 1), .step 1, .environment (List.replicate 32 2),
        .step 2, .environment (List.replicate 12 3), .step 1, .step 2, .step 1, .step 2, .step 1,
        .step 1, .step 1, .step 1, .step 1, .finish 1, .step 2, .step 2, .step 2, .step 2, .step 2,
        .step 2, .finish 2, .start 3 (.getSecret "gemini_api_key"), .step 3, .step 3, .step 3]
      (fun s => (s.sessions 3).any fun x => decide (x.call = Call.getSecret "gemini_api_key") &&
        x.program.outcome.any fun r => decide (r.toOption = some (Result.secret "s2")))
      (s := ⟨⟨Db.ofRows fun _ => none, ⟨[], []⟩⟩, fun _ => none⟩)
      ⟨⟨fun _ => rfl, rfl⟩, fun _ => rfl, fun _ => Db.idle_ofRows _⟩ (by decide +kernel)
  rw [Option.any_eq_true] at result
  obtain ⟨x, hx, result⟩ := result
  rw [Bool.and_eq_true, decide_eq_true_eq, Option.any_eq_true] at result
  obtain ⟨hcall, r, hr, result⟩ := result
  obtain rfl : r = .ok (.secret "s2") := by
    cases r with
    | error e => cases of_decide_eq_true result
    | ok r =>
      cases of_decide_eq_true result
      rfl
  obtain ⟨moment, hbegun, hmoment, hresult⟩ :=
    (get_secret_consistent plainAead_opens rfl run).2 3 x _ _ hx hcall hr
  refine ⟨h, s, x, run, hx, hr, moment, hbegun, hmoment, ?_⟩
  cases hlast : lastCommitted "gemini_api_key" moment with
  | none =>
    rw [hlast] at hresult
    cases hresult
  | some secret =>
    rw [hlast] at hresult
    cases hresult
    rfl

end Runs

end Credentials

end Lumina.Platform
