/-
Berth.Auth.Static — API keys from a file (`internal/auth/static.go`).

The file lists one key a line, `<id>:<hash>`, with the SHA-256 of the token
and not the token. It is read with a `bufio.Scanner`, so a line has a
largest size, and what ends the reading is reported after the lines before
it. The hash function is a parameter: nothing below depends on it.
-/
import Berth.Acquire.Config
import Berth.Path.Clean
import Berth.Tenant.Authorizer

namespace Berth.Auth

open Berth.Acquire (trimSpace)
open Berth.Lease Berth.Tenant

/-! ## Scanning -/

/-- A file that could be opened: what it holds, and the error that ended the
reading if it was not the end of the file. -/
structure File where
  content : String
  readErr : Option Err := none

/-- `bufio.MaxScanTokenSize`. -/
def maxScanTokenSize : Nat := 64 * 1024

/-- `bufio.ErrTooLong`. -/
def errTooLong : Err := .new "bufio.Scanner: token too long"

/-- The line fits the scanner's buffer together with its newline. -/
def fits (line : List Char) : Bool := (String.ofList line).utf8ByteSize < maxScanTokenSize

/-- The lines of a text. What follows the last newline is a line if there is
anything. -/
def splitLines (content : String) : List (List Char) :=
  let pieces := content.toList.splitOn '\n'
  if pieces.getLast? = some [] then pieces.dropLast else pieces

/-- `dropCR` of `bufio`. -/
def dropCR (line : List Char) : List Char :=
  if line.getLast? = some '\r' then line.dropLast else line

/-- The texts `Scan` and `Text` give one after the other, and `Err` after
them: a line that is too long ends the scan. -/
def scan (file : File) : List String × Option Err :=
  let lines := splitLines file.content
  ((lines.takeWhile fits).map fun line => String.ofList (dropCR line),
    if lines.all fits then file.readErr else some errTooLong)

/-! ## Keys -/

/-- `map[string]Identity`, by hash. -/
abbrev Keys := List (String × Identity)

/-- `strings.SplitN(s, sep, 2)`. -/
def splitN2 (s : String) (sep : Char) : List String :=
  match s.toList.dropWhile (· ≠ sep) with
  | [] => [s]
  | _ :: back => [String.ofList (s.toList.takeWhile (· ≠ sep)), String.ofList back]

/-- The characters `validHex256` lets through. -/
def isLowerHex (c : Char) : Bool := ('0' ≤ c && c ≤ '9') || ('a' ≤ c && c ≤ 'f')

/-- `validHex256`. -/
def validHex256 (s : String) : Bool := s.utf8ByteSize == 64 && s.toList.all isLowerHex

/-- Where in the file an error is. -/
def position (path : String) (line : Nat) : String :=
  "keys file " ++ quote path ++ " line " ++ toString line

/-- The body of the loop of `loadKeysFile`, for one line. -/
def addLine (path : String) (line : Nat) (raw : String) (keys : Keys) : Except Err Keys :=
  let text := trimSpace raw
  if text = "" ∨ Path.hasPrefix text "#" = true then .ok keys
  else
    match splitN2 text ':' with
    | [first, second] =>
      let keyID := trimSpace first
      let hashHex := trimSpace second
      if keyID = "" then .error (.new (position path line ++ ": empty key id"))
      else
        match validateTenant keyID with
        | .error e => .error (.wrap (position path line) e)
        | .ok () =>
          if validHex256 hashHex = false then
            .error (.new (position path line ++ ": hash must be 64 lowercase hex chars"))
          else if (keys.lookup hashHex).isSome then
            .error (.new (position path line ++ ": duplicate hash for key id " ++ quote keyID))
          else .ok (keys ++ [(hashHex, { holder := keyID, tenant := keyID, raw := "" })])
    | _ => .error (.new (position path line ++ ": expected '<key-id>:<sha256-hex>'"))

/-- The loop of `loadKeysFile`, after `line` lines. -/
def addLines (path : String) : Nat → List String → Keys → Except Err Keys
  | _, [], keys => .ok keys
  | line, raw :: rest, keys =>
    match addLine path (line + 1) raw keys with
    | .error e => .error e
    | .ok keys => addLines path (line + 1) rest keys

/-- `loadKeysFile`, on what `os.Open` has returned. -/
def loadKeysFile (path : String) (opened : Except Err File) : Except Err Keys :=
  match opened with
  | .error e => .error (.wrap ("open keys file " ++ quote path) e)
  | .ok file =>
    match addLines path 0 (scan file).1 [] with
    | .error e => .error e
    | .ok keys =>
      match (scan file).2 with
      | some e => .error (.wrap ("scan keys file " ++ quote path) e)
      | none => .ok keys

/-! ## Authenticator -/

/-- `StaticAuthenticator`. The path is empty when the keys were not read
from a file. -/
structure StaticAuthenticator where
  keys : Keys
  filePath : String := ""

namespace StaticAuthenticator

/-- What `Reload` finds in the file. -/
def load (a : StaticAuthenticator) (opened : Except Err File) : Except Err Keys :=
  if a.filePath = "" then .error (.new "static auth: no file path configured for reload")
  else loadKeysFile a.filePath opened

/-- `StaticAuthenticator.Reload`. -/
def reload (a : StaticAuthenticator) (opened : Except Err File) :
    StaticAuthenticator × Option Err :=
  match a.load opened with
  | .error e => (a, some e)
  | .ok keys => ({ a with keys := keys }, none)

/-- `NewStaticAuthenticatorFromKeysFile`. -/
def ofKeysFile (path : String) (opened : Except Err File) : Except Err StaticAuthenticator :=
  if path = "" then .error (.new "static auth: keys file path is required")
  else
    match reload { keys := [], filePath := path } opened with
    | (_, some e) => .error e
    | (a, none) => .ok a

/-- `StaticAuthenticator.Authenticate`. -/
def authenticate (hashToken : String → String) (a : StaticAuthenticator) (token : String) :
    Except Err Identity :=
  if token = "" then .error (.new "static auth: empty token")
  else
    match a.keys.lookup (hashToken token) with
    | none => .error (.new "static auth: unauthorized")
    | some id =>
      match validateTenant id.tenant with
      | .error _ => .error (.new "static auth: unauthorized")
      | .ok () => .ok id

end StaticAuthenticator

end Berth.Auth
