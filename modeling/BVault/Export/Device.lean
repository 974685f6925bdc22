import BVault.Core.Track
import BVault.Core.DeviceSql
import BVault.Hash.Content
import Mathlib.Data.String.Basic

/-!
# Device identity and auxiliary files

The identity an export gives to its USB, derived from its track ids and playlist
names, and the small files that carry it or stand beside the database.
-/

namespace BVault.Export

open BVault.Core BVault.Hash Bytes

/-- One playlist: a name and its member hashes. -/
structure PlaylistInput where
  name : String
  hashes : List String
  deriving DecidableEq, Repr

/-- `sort_by(|a, b| a.name.cmp(&b.name))`. -/
def sortByName (playlists : List PlaylistInput) : List PlaylistInput :=
  playlists.mergeSort (fun a b => a.name ≤ b.name)

/-- Inputs of the device library beyond the tracks. -/
structure DeviceLibraryOptions where
  masterDbId : Nat
  uuid : String
  createdDate : String
  deviceName : String
  deriving DecidableEq, Repr

def fnv (hash : UInt64) (byte : UInt8) : UInt64 := (hash ^^^ byte.toUInt64) * 0x100000001b3

/-- Stable seed from the track ids and the sorted playlist names. -/
def deviceSeed (ids : List UInt32) (playlists : List PlaylistInput) : UInt64 :=
  let names := (playlists.map PlaylistInput.name).mergeSort (· ≤ ·)
  let bytes := ids.flatMap (fun id => leBytes 4 id.toNat) ++ names.flatMap utf8
  let hash := bytes.foldl fnv 0xcbf29ce484222325
  if hash = 0 then 0x123456789abcdef0 else hash

/-- 32 hex digits, the seed folded into the low half. -/
def formatUuid (seed : UInt64) : String :=
  let lo := (seed <<< 17 ||| seed >>> 47) ^^^ 0xa5a5a5a5a5a5a5a5
  hashHex seed ++ hashHex lo

/-- `format!("{n:0width$}")`. -/
def zeroPadded (width n : Nat) : String := String.ofList (List.leftpad width '0' (Nat.toDigits 10 n))

/-- The UTC date of a time in seconds since 1970; the days are counted from the first of March
of the year 0. -/
def todayIso (secs : Nat) : String :=
  let days := secs / 86400
  let z := days + 719468
  let era := z / 146097
  let doe := z - era * 146097
  let yoe := (doe - doe / 1460 + doe / 36524 - doe / 146096) / 365
  let y := yoe + era * 400
  let doy := doe - (365 * yoe + yoe / 4 - yoe / 100)
  let mp := (5 * doy + 2) / 153
  let d := doy - (153 * mp + 2) / 5 + 1
  let m := if mp < 10 then mp + 3 else mp - 9
  let y := if m ≤ 2 then y + 1 else y
  zeroPadded 4 y ++ "-" ++ zeroPadded 2 m ++ "-" ++ zeroPadded 2 d

example : todayIso 1709164800 = "2024-02-29" := by decide +kernel

def deviceOptions (ids : List UInt32) (playlists : List PlaylistInput) (now : Nat) :
    DeviceLibraryOptions :=
  let seed := deviceSeed ids playlists
  { masterDbId := (seed &&& 0x7fffffff).toNat
    uuid := formatUuid seed
    createdDate := todayIso now
    deviceName := "" }

/-- Filename for the device-library backup JSON. -/
def devlibBackupFilename (opts : DeviceLibraryOptions) : String :=
  "rbDevLibBaInfo_" ++ toString opts.masterDbId ++ ".json"

/-- The pretty-printed backup JSON. -/
def buildDevlibBackupJson (opts : DeviceLibraryOptions) : String :=
  "\x7b\n  \"uuid\": \"" ++ opts.uuid ++ "\",\n  \"info\": []\n\x7d"

def REKORDBOX_VERSION : String := "6.8.4"

/-- DEVSETTING.DAT. -/
def generateDevsetting : Bytes :=
  patchAll (List.replicate 140 0)
    [(0, leBytes 4 96), (4, utf8 "PIONEER DJ"), (0x24, utf8 "rekordbox"),
      (0x44, utf8 REKORDBOX_VERSION), (0x64, leBytes 4 0x20), (0x68, leBytes 4 0x12345678),
      (0x6C, leBytes 4 1), (0x70, [1, 1, 1, 1, 1, 1]), (0x88, leBytes 4 0xD016)]

/-- djprofile.nxs, with room for the terminator of the name. -/
def generateDjprofile (profileName : String) : Bytes :=
  patch (List.replicate 160 0) 0x20 ((utf8 profileName).take 31)

end BVault.Export
