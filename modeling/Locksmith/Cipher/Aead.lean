import Locksmith.Cipher.ChaCha20
import Locksmith.Cipher.Poly1305

namespace Locksmith
namespace Aead

def keySize : Nat := 32

def nonceSize : Nat := 24

/-- Length of the tag that follows the text. -/
def tagSize : Nat := 16

/-- Zeros up to the next multiple of sixteen. -/
def fill (n : Nat) : Bytes := List.replicate ((16 - n % 16) % 16) 0

/-- What the tag is taken of: the accompanying data and the text, each filled up, and their
lengths. -/
def transcript (aad text : Bytes) : Bytes :=
  aad ++ fill aad.length ++ text ++ fill text.length ++
    LittleEndian.ofNat 8 aad.length ++ LittleEndian.ofNat 8 text.length

/-- The key and short nonce that a long nonce stands for. -/
def session (key nonce : Bytes) : Bytes × Bytes :=
  (ChaCha20.subkey key (nonce.take 16), [0, 0, 0, 0] ++ nonce.drop 16)

def tag (key nonce aad text : Bytes) : Bytes :=
  Poly1305.tag ((ChaCha20.block key nonce 0).take 32) (transcript aad text)

/-- Encrypts a text and puts its tag behind it. -/
def encrypt (key nonce aad text : Bytes) : Bytes :=
  let (k, n) := session key nonce
  let out := ChaCha20.apply k n 1 text
  out ++ tag k n aad out

def decrypt (key nonce aad sealed : Bytes) : Option Bytes :=
  let (k, n) := session key nonce
  let out := sealed.take (sealed.length - tagSize)
  if tagSize ≤ sealed.length && tag k n aad out == sealed.drop (sealed.length - tagSize) then
    some (ChaCha20.apply k n 1 out)
  else none

end Aead
end Locksmith
