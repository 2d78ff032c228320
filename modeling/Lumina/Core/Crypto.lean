import Lumina.Library.Base64

/-!
# Sealing texts

A sealed text is the nonce and what AES-GCM makes of the text under the key and the nonce.  AES-GCM
is a parameter; `Aead.Opens` is what is used of it.  The random nonces are arguments.
-/

namespace Lumina.Crypto

abbrev Bytes := List UInt8

def keyBytes : ℕ := 32

def nonceBytes : ℕ := 12

inductive CryptoError where
  | missingKek
  | invalidTag
  | unicodeDecode
  | base64
deriving DecidableEq, Repr

/-- `AESGCM(key)`: of the key, the nonce and the data. -/
structure Aead where
  encrypt : Bytes → Bytes → Bytes → Bytes
  decrypt : Bytes → Bytes → Bytes → Option Bytes

/-- Under the same key and nonce, decryption gives what has been encrypted. -/
def Aead.Opens (A : Aead) : Prop :=
  ∀ key nonce data, A.decrypt key nonce (A.encrypt key nonce data) = some data

/-- `str.encode("utf-8")` -/
def encodeUtf8 (text : String) : Bytes := text.toByteArray.data.toList

/-- `bytes.decode("utf-8")` -/
def decodeUtf8 (bytes : Bytes) : Option String := String.fromUTF8? ⟨⟨bytes⟩⟩

theorem decode_encodeUtf8 (text : String) :
  decodeUtf8 (encodeUtf8 text) = some text
  := by
  have same : (⟨⟨encodeUtf8 text⟩⟩ : ByteArray) = text.toByteArray := rfl
  unfold decodeUtf8
  rw [same]
  exact dif_pos text.isValidUTF8

def requireKey (key : Bytes) : Except CryptoError Unit :=
  if key.length = keyBytes then .ok () else .error .missingKek

/-- `seal`, which is a keyword here. -/
def sealText (A : Aead) (key nonce : Bytes) (plaintext : String) : Except CryptoError Bytes := do
  requireKey key
  return nonce ++ A.encrypt key nonce (encodeUtf8 plaintext)

def openSealed (A : Aead) (key blob : Bytes) : Except CryptoError String := do
  requireKey key
  let nonce := blob.take nonceBytes
  let ciphertext := blob.drop nonceBytes
  match A.decrypt key nonce ciphertext with
  | none => .error .invalidTag
  | some data =>
    match decodeUtf8 data with
    | none => .error .unicodeDecode
    | some plaintext => .ok plaintext

/-- What is sealed under a key opens under that key. -/
theorem open_sealText {A : Aead} (opens : A.Opens) {key nonce : Bytes} (hkey : key.length = keyBytes)
    (hnonce : nonce.length = nonceBytes) (plaintext : String) :
  ∃ blob, sealText A key nonce plaintext = .ok blob ∧ openSealed A key blob = .ok plaintext
  := by
  have valid : requireKey key = .ok () := if_pos hkey
  refine ⟨nonce ++ A.encrypt key nonce (encodeUtf8 plaintext), ?_, ?_⟩
  · unfold sealText
    rw [valid]
    rfl
  · unfold openSealed
    rw [valid, List.take_left' hnonce, List.drop_left' hnonce]
    simp only [opens key nonce, decode_encodeUtf8]
    rfl

/-- `_wrap`: the data key under the master key. -/
def wrap (A : Aead) (kek nonce dek : Bytes) : Except CryptoError Bytes :=
  sealText A kek nonce (String.ofList (Base64.encode dek))

/-- `_unwrap` -/
def unwrap (A : Aead) (kek wrapped : Bytes) : Except CryptoError Bytes := do
  let text ← openSealed A kek wrapped
  match Base64.decode text.toList with
  | none => .error .base64
  | some dek => .ok dek

/-- A data key that is wrapped can be unwrapped. -/
theorem unwrap_wrap {A : Aead} (opens : A.Opens) {kek nonce : Bytes}
    (hkek : kek.length = keyBytes) (hnonce : nonce.length = nonceBytes) (dek : Bytes) :
  ∃ wrapped, wrap A kek nonce dek = .ok wrapped ∧ unwrap A kek wrapped = .ok dek
  := by
  obtain ⟨blob, hseal, hopen⟩ :=
    open_sealText opens hkek hnonce (String.ofList (Base64.encode dek))
  refine ⟨blob, hseal, ?_⟩
  unfold unwrap
  rw [hopen]
  have text : (String.ofList (Base64.encode dek)).toList = Base64.encode dek :=
    String.toList_ofList
  have bound : (do
      let text ← Except.ok (ε := CryptoError) (String.ofList (Base64.encode dek))
      match Base64.decode text.toList with
      | none => .error .base64
      | some dek => .ok dek) =
    match Base64.decode (String.ofList (Base64.encode dek)).toList with
    | none => .error CryptoError.base64
    | some dek => .ok dek := rfl
  rw [bound, text, Base64.decode_encode]

end Lumina.Crypto
