import SdtTr369.UspTypes

/-!
# Path texts

`TEXT_UTILS_CalcHash` and its one-character step `ADD_TO_HASH`, on 32-bit
words. A character stands for the byte the source adds.
-/

namespace TextUtils

open UspTypes

def offsetBasis : UInt32 := 0x811C9DC5
def fnvPrime : UInt32 := 0x1000193

/-- Macro `ADD_TO_HASH`. -/
def addToHash (hash : UInt32) (c : Char) : UInt32 := (hash * fnvPrime) ^^^ UInt32.ofNat c.toNat

/-- A run of `ADD_TO_HASH` over consecutive characters. -/
def addAllToHash (hash : UInt32) (s : Str) : UInt32 := s.foldl addToHash hash

@[simp] theorem addAllToHash_nil (hash : UInt32) : addAllToHash hash [] = hash := rfl
@[simp] theorem addAllToHash_cons (hash : UInt32) (c : Char) (s : Str) :
    addAllToHash hash (c :: s) = addAllToHash (addToHash hash c) s := rfl

theorem addAllToHash_append (hash : UInt32) (s t : Str) :
    addAllToHash hash (s ++ t) = addAllToHash (addAllToHash hash s) t := by
  simp [addAllToHash, List.foldl_append]

def calcHash (s : Str) : UInt32 := addAllToHash offsetBasis s

/-- `TEXT_UTILS_StrDupWithTrailingDot`. -/
def withTrailingDot (path : Str) : Str :=
  if path.getLast? = some '.' then path else path ++ ['.']

end TextUtils
