import BVault.Lib.Percent

/-!
# Passwords, session tokens and cookies at rest

The pure half of the accounts. Argon2id, SHA-256 and AES-256-GCM are parameters;
what the operating system's generator delivers comes with each call.
-/

namespace BVault.Auth

/-- The algorithms, in the form in which they are called. -/
structure Primitives where
  /-- Argon2id with the default parameters: salt and password to a PHC string. -/
  argon2 : Bytes → Bytes → Option String
  /-- Whether a PHC string parses and its digest is that of the password. -/
  argon2Verify : Bytes → String → Bool
  sha256 : Bytes → Bytes
  /-- AES-256-GCM: key, nonce and plaintext to ciphertext. -/
  aesEncrypt : Bytes → Bytes → Bytes → Option Bytes
  /-- Its inverse; `none` where the tag does not fit. -/
  aesDecrypt : Bytes → Bytes → Bytes → Option Bytes

/-- 96 bits for one encryption. -/
abbrev Nonce := { bytes : Bytes // bytes.length = 12 }

inductive AuthError where
  | hash
  | encryption
  | decryption (message : Option String)
  deriving DecidableEq, Repr

def toHex (bytes : Bytes) : String :=
  String.ofList (bytes.flatMap fun b => [Nat.digitChar (b.toNat / 16), Nat.digitChar (b.toNat % 16)])

/-- The token that 32 random bytes make. -/
def generateToken (random : Bytes) : String := toHex random

section
variable (p : Primitives)

def hashPassword (password : String) (salt : Bytes) : Except AuthError String :=
  match p.argon2 salt (Percent.encode password.toList) with
  | some phc => .ok phc
  | none => .error .hash

def verifyPassword (password phc : String) : Bool :=
  p.argon2Verify (Percent.encode password.toList) phc

/-- The fingerprint under which a token is stored and looked up. -/
def hashToken (token : String) : String := toHex (p.sha256 (Percent.encode token.toList))

/-- The nonce stands before the ciphertext. -/
def encryptCookie (plaintext : String) (key : Bytes) (nonce : Nonce) : Except AuthError Bytes :=
  match p.aesEncrypt key nonce.val (Percent.encode plaintext.toList) with
  | some ciphertext => .ok (nonce.val ++ ciphertext)
  | none => .error .encryption

def decryptCookie (payload key : Bytes) : Except AuthError String :=
  if payload.length < 12 then .error (.decryption (some "payload too short"))
  else
    match p.aesDecrypt key (payload.take 12) (payload.drop 12) with
    | none => .error (.decryption none)
    | some plaintext =>
      match Percent.decodeUtf8 plaintext with
      | some text => .ok text
      | none => .error (.decryption (some "invalid utf8"))

variable {p}

/-- What was encrypted is decrypted with the same key, whatever the nonce. -/
theorem decrypt_of_encrypt (inverse : ∀ key nonce plain cipher, p.aesEncrypt key nonce plain = some cipher →
      p.aesDecrypt key nonce cipher = some plain)
    {text : String} {key payload : Bytes} {nonce : Nonce}
    (encrypted : encryptCookie p text key nonce = .ok payload) :
    decryptCookie p payload key = .ok text := by
  unfold encryptCookie at encrypted
  split at encrypted
  · rename_i ciphertext made
    cases encrypted
    have long : ¬ (nonce.val ++ ciphertext).length < 12 := by
      rw [List.length_append, nonce.property]
      omega
    have front : (nonce.val ++ ciphertext).take 12 = nonce.val :=
      List.take_left' nonce.property
    have back : (nonce.val ++ ciphertext).drop 12 = ciphertext :=
      List.drop_left' nonce.property
    have text' : Percent.decodeUtf8 (Percent.encode text.toList) = some text :=
      Percent.decodeUtf8_iff.mpr rfl
    simp only [decryptCookie, if_neg long, front, back, inverse _ _ _ _ made, text']
  · cases encrypted

end

end BVault.Auth
