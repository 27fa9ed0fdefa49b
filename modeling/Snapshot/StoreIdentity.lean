import Snapshot.StorageIdentity
import Snapshot.FieldFrames
import Mathlib.Data.Set.Function

/-! The identifier of a store: a hash over the fields that locate it, taken after the base path, the endpoint and
the prefix have been normalized. -/
namespace StoreIdentity

open LexicalPath (Bytes IsName sep dot dotdot split rooted clean)
open ByteText (literal)
open StorageIdentity (lowerAlnum hyphen backslash)
open StorageIdentity.Api (LabelFault isDNS1123Label dns1123LabelPattern)

/-! ### The `storage` package -/

/-- Labels of the expression of a label, joined by dots. -/
def isDNS1123Subdomain (s : Bytes) : List LabelFault :=
  (if s.length > 253 then [.tooLong] else []) ++ (if (s.splitOn 0x2E).all dns1123LabelPattern then [] else [.pattern])

inductive StoreError
  | pvcNamespace (errs : List LabelFault)
  | pvcClaimName (errs : List LabelFault)
  | pvcBasePath
  | pvcBasePathTraversal
  | endpointText
  | endpointParse
  | endpointForm
  | region
  | bucketLength
  | bucketCharacters
  | bucketEdges
  | s3Prefix
  | s3PrefixTraversal
  deriving DecidableEq, Repr

structure PVC where
  pvcNamespace : Bytes
  claimName : Bytes
  basePath : Bytes
  deriving DecidableEq, Repr

structure S3 where
  endpoint : Bytes
  region : Bytes
  bucket : Bytes
  keyPrefix : Bytes
  deriving DecidableEq, Repr

/-- The parts of a URL that `NormalizedEndpoint` reads. -/
structure URL where
  scheme : Bytes
  hostname : Bytes
  port : Bytes
  path : Bytes
  rawQuery : Bytes
  fragment : Bytes
  user : Bool
  deriving DecidableEq, Repr

/-- `url.Parse` and `strings.ToLower`: neither makes up text. -/
structure TextLibrary where
  parse : Bytes → Option URL
  toLower : Bytes → Bytes
  parse_length : ∀ s u, parse s = some u → u.hostname.length + u.port.length ≤ s.length
  toLower_length : ∀ s, (toLower s).length ≤ 3 * s.length

/-- The first test of `NormalizedBasePath` and `NormalizedPrefix`: text without escapes, control characters or
white space around it. -/
def plainText (limit : ℕ) (s : Bytes) : Bool :=
  Utf8.valid s && s.length ≤ limit && Utf8.trimSpace s == s && !(backslash ∈ s)
    && !(Utf8.runes s).any (·.any Utf8.isControl)

def PVC.normalizedBasePath (p : PVC) : Except StoreError Bytes :=
  if !(plainText 4096 p.basePath && rooted p.basePath) then .error .pvcBasePath
  else if dotdot ∈ split p.basePath then .error .pvcBasePathTraversal
  else .ok (clean p.basePath)

def S3.normalizedPrefix (s : S3) : Except StoreError Bytes :=
  if !(plainText 1024 s.keyPrefix && !rooted s.keyPrefix) then .error .s3Prefix
  else if s.keyPrefix = [] then .ok []
  else if dotdot ∈ split s.keyPrefix then .error .s3PrefixTraversal
  else if clean s.keyPrefix = dot then .ok []
  else .ok (clean s.keyPrefix)

def schemeHTTP : Bytes := literal "http"

def schemeHTTPS : Bytes := literal "https"

def colon : UInt8 := 0x3A

/-- The host of a normalized endpoint: a literal address in brackets, a default port left out. -/
def hostText (scheme hostname port : Bytes) : Bytes :=
  let hostname := if colon ∈ hostname then literal "[" ++ hostname ++ literal "]" else hostname
  let port := if (scheme = schemeHTTP ∧ port = literal "80") ∨ (scheme = schemeHTTPS ∧ port = literal "443") then []
    else port
  if port ≠ [] then hostname ++ [colon] ++ port else hostname

def S3.normalizedEndpoint (lib : TextLibrary) (s : S3) : Except StoreError Bytes :=
  if !(Utf8.valid s.endpoint && s.endpoint.length ≤ 2048) then .error .endpointText
  else match lib.parse s.endpoint with
  | none => .error .endpointParse
  | some parsed =>
    let scheme := lib.toLower parsed.scheme
    let hostname := lib.toLower parsed.hostname
    if (scheme ≠ schemeHTTP ∧ scheme ≠ schemeHTTPS) ∨ hostname = [] ∨ parsed.path ≠ [] ∨ parsed.rawQuery ≠ []
        ∨ parsed.fragment ≠ [] ∨ parsed.user = true then .error .endpointForm
    else .ok (scheme ++ literal "://" ++ hostText scheme hostname parsed.port)

def isPrintableASCII (s : Bytes) : Bool := s.all fun b => 0x21 ≤ b && b ≤ 0x7E

def validateBucket (bucket : Bytes) : Except StoreError Unit :=
  let edge (b : Option UInt8) := b.any fun c => c == 0x2E || c == hyphen
  if bucket.length < 3 || bucket.length > 63 then .error .bucketLength
  else if !bucket.all (fun c => lowerAlnum c || c == 0x2E || c == hyphen) then .error .bucketCharacters
  else if edge bucket.head? || edge bucket.getLast? then .error .bucketEdges
  else .ok ()

section

variable (sha256 : Bytes → Bytes)

def hashFields (fields : List Bytes) : Bytes := FieldFrames.hexEncode (sha256 (FieldFrames.frames fields))

def storeName (fields : List Bytes) : Bytes := literal "store-v1-" ++ hashFields sha256 fields

def PVC.storeID (p : PVC) : Except StoreError Bytes :=
  if isDNS1123Label p.pvcNamespace ≠ [] then .error (.pvcNamespace (isDNS1123Label p.pvcNamespace))
  else if isDNS1123Subdomain p.claimName ≠ [] then .error (.pvcClaimName (isDNS1123Subdomain p.claimName))
  else do
    let base ← p.normalizedBasePath
    return storeName sha256 [literal "snapshot.store/v1", literal "pvc", p.pvcNamespace, p.claimName, base]

def S3.storeID (lib : TextLibrary) (s : S3) : Except StoreError Bytes := do
  let endpoint ← s.normalizedEndpoint lib
  if s.region = [] ∨ s.region.length > 255 ∨ isPrintableASCII s.region = false then .error .region
  else do
    validateBucket s.bucket
    let keyPrefix ← s.normalizedPrefix
    return storeName sha256 [literal "snapshot.store/v1", literal "s3", endpoint, s.region, s.bucket, keyPrefix]

end

/-- A configuration of either kind. -/
inductive Store
  | pvc (p : PVC)
  | s3 (s : S3)
  deriving DecidableEq, Repr

def Store.storeID (sha256 : Bytes → Bytes) (lib : TextLibrary) : Store → Except StoreError Bytes
  | .pvc p => p.storeID sha256
  | .s3 s => s.storeID sha256 lib

/-! ### Locations -/

/-- The fields of a configuration with the normalized ones in their place. -/
def Store.normalized (lib : TextLibrary) : Store → Except StoreError Store
  | .pvc p => do
    let base ← p.normalizedBasePath
    return .pvc { p with basePath := base }
  | .s3 s => do
    let endpoint ← s.normalizedEndpoint lib
    let keyPrefix ← s.normalizedPrefix
    return .s3 { s with endpoint := endpoint, keyPrefix := keyPrefix }

/-- What the identifier of a normalized configuration is a hash of. -/
def Store.fields : Store → List Bytes
  | .pvc p => [literal "snapshot.store/v1", literal "pvc", p.pvcNamespace, p.claimName, p.basePath]
  | .s3 s => [literal "snapshot.store/v1", literal "s3", s.endpoint, s.region, s.bucket, s.keyPrefix]

/-- The tests that normalization does not repeat. -/
def Store.Named : Store → Prop
  | .pvc p => isDNS1123Label p.pvcNamespace = [] ∧ isDNS1123Subdomain p.claimName = []
  | .s3 s => ¬(s.region = [] ∨ s.region.length > 255 ∨ isPrintableASCII s.region = false) ∧ validateBucket s.bucket = .ok ()

end StoreIdentity
