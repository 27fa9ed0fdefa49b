import Snapshot.StorageIdentity

/-! Where PageBroker puts an artifact in a bucket: the store's prefix, the artifact handle and the names
of the checkpoint's files, checked once more as one object key. Every key of an accepted identity is a
path of proper names. -/
namespace S3Layout

open LexicalPath (Bytes Path IsName sep dot dotdot split render comps rooted)
open ByteText (literal)
open StorageIdentity StorageIdentity.PageBroker

/-! ### Locations -/

def nul : UInt8 := 0

def lineFeed : UInt8 := 10

def carriageReturn : UInt8 := 13

/-- The normal form of `std::filesystem`: unlike a cleaned name it keeps the separator after a name
that is read as a directory. -/
def lexicallyNormal (s : Bytes) : Bytes :=
  if s = [] then []
  else
    let directory : Bool := (split s).getLast?.any fun c => c == [] || c == dot || c == dotdot
    if comps s ≠ [] ∧ directory = true ∧ (comps s).getLast? ≠ some dotdot then render (rooted s) (comps s) ++ [sep]
    else render (rooted s) (comps s)

/-- The elements of a relative path: separators in a row count once, and one at the end adds an empty
element. -/
def components (s : Bytes) : Path := (split s).dropLast.filter (· ≠ []) ++ (split s).getLast?.toList

def isSafeRelativePath (path : Bytes) : Bool :=
  if path = [] ∨ rooted path = true then false
  else if nul ∈ path then false
  else if lexicallyNormal path ≠ path then false
  else (components path).all fun c => c ≠ [] && c ≠ dot && c ≠ dotdot

def isValidStoragePrefix (storagePrefix : Bytes) : Bool :=
  let invalidCharacters := storagePrefix.any fun c => c < 33 || c > 126 || c == backslash
  if storagePrefix.length > 384 || invalidCharacters then false
  else storagePrefix == [] || isSafeRelativePath storagePrefix

structure S3ObjectLocation where
  bucket : Bytes
  key : Bytes
  deriving DecidableEq, Repr

def kDirectoryBucketSuffix : Bytes := literal "--x-s3"

def isSupportedObjectLocation (object : S3ObjectLocation) : Bool :=
  let edge (b : Option UInt8) := b.any fun c => c == 0x2E || c == hyphen
  if object.bucket.length < 3 || object.bucket.length > 63 then false
  else if object.key == [] || object.key.length > 1024 then false
  else if !object.bucket.all (fun c => lowerAlnum c || c == 0x2E || c == hyphen) then false
  else if edge object.bucket.head? then false
  else if edge object.bucket.getLast? then false
  else ByteText.find dotdot object.bucket == none && !kDirectoryBucketSuffix.isSuffixOf object.bucket

/-- What `std::getline` reads up to each separator. -/
def keyComponents (key : Bytes) : Path :=
  if (split key).getLast? = some [] then (split key).dropLast else split key

def S3ObjectLocation.validate (object : S3ObjectLocation) : Except String Unit :=
  if [object.bucket, object.key].any (fun value => nul ∈ value || lineFeed ∈ value || carriageReturn ∈ value) then
    .error "S3 object location cannot contain NUL or line breaks"
  else if !isSupportedObjectLocation object then
    .error "S3 upload requires an ordinary bucket name and a supported nonempty key"
  else if (keyComponents object.key).any (fun c => c == [] || c == dot || c == dotdot) then
    .error "S3 object key must be a canonical relative path"
  else if object.key.getLast? = some sep then .error "S3 object key cannot end in a slash"
  else .ok ()

def kCheckpointIndexName : Bytes := literal "index.json"

def kCheckpointManifestName : Bytes := literal "manifest.yaml"

def kPayloadDirectory : Bytes := literal "data"

def kPayloadPrefix : Bytes := kPayloadDirectory ++ [sep]

/-- The configuration that the backend's constructor accepts. -/
structure S3Config where
  storeID : Bytes
  bucket : Bytes
  storagePrefix : Bytes
  configured : bucket ≠ [] ∧ storeID ≠ []
  prefixValid : isValidStoragePrefix storagePrefix = true
  bucketValid : S3ObjectLocation.validate ⟨bucket, kCheckpointIndexName⟩ = .ok ()

structure ArtifactTarget where
  storeID : Bytes
  artifactUid : Bytes
  containerName : Bytes

structure PublishedArtifact where
  storeID : Bytes
  artifactHandle : Bytes
  deriving DecidableEq, Repr

inductive Fault
  | invalidArgument (what : String)
  | storeMismatch (what : String)
  deriving DecidableEq, Repr

/-- The start of every key of a store. -/
def keyPrefix (storagePrefix : Bytes) : Bytes := if storagePrefix = [] then [] else storagePrefix ++ [sep]

def objectKey (storagePrefix handle key : Bytes) : Bytes := keyPrefix storagePrefix ++ handle ++ [sep] ++ key

def object (config : S3Config) (storage : PublishedArtifact) (key : Bytes) : S3ObjectLocation :=
  ⟨config.bucket, objectKey config.storagePrefix storage.artifactHandle key⟩

def validateArtifactDescriptor (config : S3Config) (storage : PublishedArtifact) : Except Fault Unit :=
  if storage.storeID = [] then .error (.invalidArgument "artifact requires store ID and handle")
  else if storage.storeID ≠ config.storeID then .error (.storeMismatch "artifact belongs to another store")
  else do
    (validateArtifactHandle storage.artifactHandle).mapError .invalidArgument
    (object config storage (kPayloadPrefix ++ kCheckpointManifestName)).validate.mapError .invalidArgument

def resolveTarget (config : S3Config) (target : ArtifactTarget) : Except Fault PublishedArtifact :=
  if target.storeID = [] then .error (.invalidArgument "artifact target requires a store ID")
  else if target.storeID ≠ config.storeID then .error (.storeMismatch "target belongs to another store")
  else do
    (validateArtifactIdentity target.artifactUid target.containerName).mapError .invalidArgument
    let artifact : PublishedArtifact := ⟨config.storeID, artifactHandle target.artifactUid target.containerName⟩
    validateArtifactDescriptor config artifact
    return artifact

/-! ### Prefixes are paths of names -/

theorem split_eq_concat (s : Bytes) : ∃ p c, split s = p ++ [c] := by
  have hne : split s ≠ [] := List.splitOn_ne_nil _ _
  obtain ⟨p, c, hp⟩ := (List.eq_nil_or_concat (split s)).resolve_left hne
  exact ⟨p, c, by rw [hp, List.concat_eq_append]⟩

theorem isSafeRelativePath_iff {s : Bytes} : isSafeRelativePath s = true
    ↔ s ≠ [] ∧ rooted s = false ∧ nul ∉ s ∧ lexicallyNormal s = s ∧ ∀ c ∈ components s, c ≠ [] ∧ c ≠ dot ∧ c ≠ dotdot := by
  simp only [isSafeRelativePath, Bool.if_false_left, Bool.and_eq_true, Bool.not_eq_true', decide_eq_false_iff_not,
    not_or, not_not, List.all_eq_true, decide_eq_true_eq, ne_eq, and_assoc, Bool.not_eq_true]

/-- A name whose last component is a proper name is in normal form exactly if it is cleaned. -/
theorem lexicallyNormal_eq {s : Bytes} {p : Path} {c : Bytes} (hs : split s = p ++ [c]) (hc : c ≠ [] ∧ c ≠ dot ∧ c ≠ dotdot) :
    lexicallyNormal s = LexicalPath.clean s := by
  have hne : s ≠ [] := by
    rintro rfl
    have hlast := congrArg List.getLast? hs
    rw [List.getLast?_concat] at hlast
    exact hc.1 (Option.some.inj hlast).symm
  rw [lexicallyNormal, if_neg hne]
  simp only [hs, List.getLast?_concat, Option.any_some]
  rw [if_neg]
  · rfl
  · rintro ⟨-, hdir, -⟩
    simp [hc] at hdir

theorem isName_of_mem_split {s c : Bytes} (h : isSafeRelativePath s = true) (hc : c ∈ split s) : IsName c := by
  obtain ⟨-, hroot, -, hnormal, hcomponents⟩ := isSafeRelativePath_iff.1 h
  obtain ⟨p, last, hsplit⟩ := split_eq_concat s
  have hmem : components s = p.filter (· ≠ []) ++ [last] := by simp [components, hsplit]
  have hlast := hcomponents last (by simp [hmem])
  rw [lexicallyNormal_eq hsplit hlast, LexicalPath.clean, hroot] at hnormal
  have hne : comps s ≠ [] := by
    intro hnil
    rw [hnil] at hnormal
    rw [← hnormal] at hsplit
    have := congrArg List.getLast? hsplit
    rw [List.getLast?_concat] at this
    exact hlast.2.1 (Option.some.inj this).symm
  have hcomps : split s = comps s := by
    rw [render, if_neg Bool.false_ne_true, if_neg hne] at hnormal
    have := LexicalPath.split_intercalate (fun c hc => (LexicalPath.mem_comps hc).2.2) hne
    rwa [hnormal] at this
  obtain ⟨hcne, hcdot, hcsep⟩ := LexicalPath.mem_comps (hcomps ▸ hc)
  refine ⟨hcne, hcdot, ?_, hcsep⟩
  have hcin : c ∈ components s := by
    rw [hmem, List.mem_append, List.mem_filter]
    rcases List.mem_append.1 (hsplit ▸ hc) with hp | hp
    · exact .inl ⟨hp, by simpa using hcne⟩
    · exact .inr hp
  exact (hcomponents c hcin).2.2

/-- The names of a store's prefix. -/
def prefixNames (storagePrefix : Bytes) : Path := if storagePrefix = [] then [] else split storagePrefix

section

variable {storagePrefix : Bytes} (hvalid : isValidStoragePrefix storagePrefix = true)
include hvalid

theorem isValidStoragePrefix_iff : storagePrefix.length ≤ 384
    ∧ (∀ b ∈ storagePrefix, 33 ≤ b ∧ b ≤ 126 ∧ b ≠ backslash)
    ∧ (storagePrefix = [] ∨ isSafeRelativePath storagePrefix = true) := by
  simp only [isValidStoragePrefix, Bool.if_false_left, Bool.and_eq_true, Bool.not_eq_true', decide_eq_false_iff_not,
    gt_iff_lt, Bool.or_eq_true, decide_eq_true_eq, beq_iff_eq, not_or, not_lt] at hvalid
  obtain ⟨⟨hlen, hchars⟩, hsafe⟩ := hvalid
  refine ⟨hlen, fun b hb => ?_, hsafe⟩
  rw [Bool.not_eq_true, List.any_eq_false] at hchars
  simpa [and_assoc, UInt8.not_lt] using hchars b hb

theorem isName_prefixNames {c : Bytes} (hc : c ∈ prefixNames storagePrefix) : IsName c := by
  rw [prefixNames] at hc
  by_cases hnil : storagePrefix = []
  · rw [if_pos hnil] at hc
    cases hc
  · rw [if_neg hnil] at hc
    exact isName_of_mem_split (((isValidStoragePrefix_iff hvalid).2.2).resolve_left hnil) hc

end

theorem keyPrefix_append {storagePrefix : Bytes} {p : Path} (hp : p ≠ []) :
    keyPrefix storagePrefix ++ [sep].intercalate p = [sep].intercalate (prefixNames storagePrefix ++ p) := by
  rw [keyPrefix, prefixNames]
  by_cases hnil : storagePrefix = []
  · rw [if_pos hnil, if_pos hnil, List.nil_append, List.nil_append]
  · rw [if_neg hnil, if_neg hnil, split, LexicalPath.intercalate_append (List.splitOn_ne_nil _ _) hp,
      List.intercalate_splitOn, List.append_assoc, List.singleton_append]

/-! ### Keys of accepted identities -/

section

variable {uid container : Bytes} (haccepted : validateArtifactIdentity uid container = .ok ())
include haccepted

theorem isName_uid : IsName uid := by
  obtain ⟨huid, hdot, hdotdot, -⟩ := broker_accepts_iff.1 haccepted
  exact ⟨huid.nonempty, hdot, hdotdot, huid.unseparated⟩

theorem mem_container {b : UInt8} (hb : b ∈ container) : (lowerAlnum b || b == hyphen) = true := by
  obtain ⟨-, -, -, hlabel⟩ := broker_accepts_iff.1 haccepted
  exact (dns1123LabelPattern_iff.1 (label_iff.1 hlabel).2).2.2 b hb

theorem isName_container : IsName container := by
  obtain ⟨-, -, -, hlabel⟩ := broker_accepts_iff.1 haccepted
  refine ⟨?_, ?_, ?_, ?_⟩
  · rintro rfl
    exact absurd hlabel (by decide)
  · rintro rfl
    exact absurd hlabel (by decide)
  · rintro rfl
    exact absurd hlabel (by decide)
  · intro hsep
    exact absurd (mem_container haccepted hsep) (by decide)

end

theorem artifactHandle_eq (uid container : Bytes) : artifactHandle uid container
    = [sep].intercalate [literal "artifacts", uid, literal "containers", container] := by
  simp [artifactHandle, kArtifactsPrefix, kContainersComponent, literal, List.intercalate, sep]

/-- The names on the way to a file of an artifact. -/
def keyNames (storagePrefix uid container : Bytes) (file : Path) : Path :=
  prefixNames storagePrefix ++ [literal "artifacts", uid, literal "containers", container] ++ file

theorem objectKey_eq (storagePrefix uid container : Bytes) {file : Path} (hfile : file ≠ []) :
    objectKey storagePrefix (artifactHandle uid container) ([sep].intercalate file)
      = [sep].intercalate (keyNames storagePrefix uid container file) := by
  rw [objectKey, keyNames, artifactHandle_eq, List.append_assoc, List.singleton_append, List.append_assoc,
    ← LexicalPath.intercalate_append (List.cons_ne_nil _ _) hfile, keyPrefix_append, List.append_assoc]
  simp

theorem isName_keyNames {storagePrefix uid container c : Bytes} {file : Path}
    (hvalid : isValidStoragePrefix storagePrefix = true) (haccepted : validateArtifactIdentity uid container = .ok ())
    (hfile : ∀ c ∈ file, IsName c) (hc : c ∈ keyNames storagePrefix uid container file) : IsName c := by
  simp only [keyNames, List.mem_append, List.mem_cons, List.not_mem_nil, or_false] at hc
  rcases hc with (hc | rfl | rfl | rfl | rfl) | hc
  · exact isName_prefixNames hvalid hc
  · decide
  · exact isName_uid haccepted
  · decide
  · exact isName_container haccepted
  · exact hfile c hc

/-- The two parts of a handle are recovered from it. -/
theorem splitHandle_artifactHandle {uid : Bytes} (huid : sep ∉ uid) (container : Bytes) :
    splitHandle (artifactHandle uid container) = some (uid, container) := by
  have hstart : kArtifactsPrefix <+: artifactHandle uid container := ⟨_, by rw [artifactHandle, List.append_assoc, List.append_assoc]⟩
  rw [splitHandle, if_pos (List.isPrefixOf_iff_prefix.2 hstart), artifactHandle, List.append_assoc, List.append_assoc,
    List.drop_left]
  exact ByteText.cut_append huid

theorem artifactHandle_of_splitHandle {handle : Bytes} {p : Bytes × Bytes} (h : splitHandle handle = some p) :
    artifactHandle p.1 p.2 = handle := by
  rw [splitHandle] at h
  split at h
  · rename_i hstart
    obtain ⟨rest, rfl⟩ := List.isPrefixOf_iff_prefix.1 hstart
    rw [List.drop_left] at h
    rw [artifactHandle, List.append_assoc, List.append_assoc, ← List.append_assoc p.1, ← ByteText.eq_of_cut h]
  · cases h

theorem artifactHandle_injective {uid uid' container container' : Bytes} (huid : sep ∉ uid) (huid' : sep ∉ uid')
    (h : artifactHandle uid container = artifactHandle uid' container') : uid = uid' ∧ container = container' := by
  have hsplit := splitHandle_artifactHandle huid container
  rw [h, splitHandle_artifactHandle huid' container'] at hsplit
  cases hsplit
  exact ⟨rfl, rfl⟩

theorem validateArtifactHandle_eq_ok {handle : Bytes} : validateArtifactHandle handle = .ok ()
    ↔ ∃ p : Bytes × Bytes, splitHandle handle = some p ∧ validateArtifactIdentity p.1 p.2 = .ok () := by
  rw [validateArtifactHandle]
  cases splitHandle handle with
  | none => simp
  | some p => simp

/-! ### Resolved targets -/

theorem keyComponents_intercalate {p : Path} (hp : ∀ c ∈ p, IsName c) (hne : p ≠ []) :
    keyComponents ([sep].intercalate p) = p ∧ ([sep].intercalate p).getLast? ≠ some sep := by
  have hsplit := LexicalPath.split_intercalate (fun c hc => (hp c hc).2.2.2) hne
  have hlast : p.getLast? ≠ some [] := by
    intro h
    exact (hp [] (List.mem_of_getLast? h)).1 rfl
  constructor
  · rw [keyComponents, hsplit, if_neg hlast]
  · intro h
    obtain ⟨s, hs⟩ := List.getLast?_eq_some_iff.1 h
    rw [hs, LexicalPath.split_append] at hsplit
    rw [← hsplit] at hlast
    exact hlast List.getLast?_concat

/-- Neither NUL nor a line break. -/
def Unbroken (s : Bytes) : Prop := nul ∉ s ∧ lineFeed ∉ s ∧ carriageReturn ∉ s

instance (s : Bytes) : Decidable (Unbroken s) := inferInstanceAs (Decidable (_ ∧ _ ∧ _))

theorem unbroken_of_forall {s : Bytes} (h : ∀ b ∈ s, b ≠ nul ∧ b ≠ lineFeed ∧ b ≠ carriageReturn) : Unbroken s :=
  ⟨fun hb => (h _ hb).1 rfl, fun hb => (h _ hb).2.1 rfl, fun hb => (h _ hb).2.2 rfl⟩

theorem unbroken_append {s t : Bytes} (hs : Unbroken s) (ht : Unbroken t) : Unbroken (s ++ t) := by
  simp only [Unbroken, List.mem_append, not_or]
  exact ⟨⟨hs.1, ht.1⟩, ⟨hs.2.1, ht.2.1⟩, hs.2.2, ht.2.2⟩

theorem unbroken_keyPrefix {storagePrefix : Bytes} (hvalid : isValidStoragePrefix storagePrefix = true) :
    Unbroken (keyPrefix storagePrefix) := by
  rw [keyPrefix]
  by_cases hnil : storagePrefix = []
  · rw [if_pos hnil]
    decide
  · rw [if_neg hnil]
    refine unbroken_append (unbroken_of_forall fun b hb => ?_) (by decide)
    have hlow := ((isValidStoragePrefix_iff hvalid).2.1 b hb).1
    refine ⟨?_, ?_, ?_⟩ <;>
    · rintro rfl
      exact absurd hlow (by decide)

theorem unbroken_uid {uid : Bytes} (huid : OpaqueUID uid) : Unbroken uid := by
  obtain ⟨rs, hrs, hall⟩ := huid.text
  refine unbroken_of_forall fun b hb => ⟨?_, ?_, ?_⟩ <;>
  · rintro rfl
    have hcontrol := (hall _ (Utf8.mem_runes hrs (by decide) hb)).2
    exact absurd hcontrol (by decide)

theorem unbroken_container {uid container : Bytes} (haccepted : validateArtifactIdentity uid container = .ok ()) :
    Unbroken container := by
  refine unbroken_of_forall fun b hb => ⟨?_, ?_, ?_⟩ <;>
  · rintro rfl
    exact absurd (mem_container haccepted hb) (by decide)

theorem validate_eq_ok {location : S3ObjectLocation} : location.validate = .ok ()
    ↔ (Unbroken location.bucket ∧ Unbroken location.key) ∧ isSupportedObjectLocation location = true
      ∧ (∀ c ∈ keyComponents location.key, c ≠ [] ∧ c ≠ dot ∧ c ≠ dotdot) ∧ location.key.getLast? ≠ some sep := by
  simp only [S3ObjectLocation.validate, CheckedFold.guard_eq_ok, List.any_cons, List.any_nil, Bool.or_false,
    Bool.not_eq_true, Bool.or_eq_false_iff, decide_eq_false_iff_not, List.any_eq_false, beq_eq_false_iff_ne,
    Bool.not_eq_false', Unbroken, and_true, and_assoc, ne_eq]

/-- A supported location in a bucket tells nothing about the key but its length. -/
theorem isSupported_of_bucket {bucket key key' : Bytes} (h : isSupportedObjectLocation ⟨bucket, key⟩ = true)
    (hne : key' ≠ []) (hlen : key'.length ≤ 1024) : isSupportedObjectLocation ⟨bucket, key'⟩ = true := by
  simp only [isSupportedObjectLocation, Bool.if_false_left, Bool.and_eq_true] at h ⊢
  exact ⟨h.1, by simp [hne, hlen], h.2.2⟩

theorem length_keyPrefix_le (storagePrefix : Bytes) : (keyPrefix storagePrefix).length ≤ storagePrefix.length + 1 := by
  rw [keyPrefix]
  split <;> simp

theorem length_artifactHandle_le {uid container : Bytes} (haccepted : validateArtifactIdentity uid container = .ok ()) :
    (artifactHandle uid container).length ≤ 341 := by
  obtain ⟨huid, -, -, hlabel⟩ := broker_accepts_iff.1 haccepted
  have hcontainer := (label_iff.1 hlabel).1
  have hlen := huid.bounded
  have hliterals : kArtifactsPrefix.length = 10 ∧ kContainersComponent.length = 12 := by decide
  rw [artifactHandle, List.length_append, List.length_append, List.length_append]
  omega

theorem validate_object (config : S3Config) {uid container : Bytes}
    (haccepted : validateArtifactIdentity uid container = .ok ()) :
    (object config ⟨config.storeID, artifactHandle uid container⟩ (kPayloadPrefix ++ kCheckpointManifestName)).validate
      = .ok () := by
  obtain ⟨⟨hbucket, -⟩, hsupported, -⟩ := validate_eq_ok.1 config.bucketValid
  have huid := (broker_accepts_iff.1 haccepted).1
  have hfile : kPayloadPrefix ++ kCheckpointManifestName = [sep].intercalate [kPayloadDirectory, kCheckpointManifestName] := by
    decide
  have hnames : ∀ c ∈ keyNames config.storagePrefix uid container [kPayloadDirectory, kCheckpointManifestName], IsName c :=
    fun c hc => isName_keyNames config.prefixValid haccepted (by decide) hc
  have hkey := objectKey_eq config.storagePrefix uid container (List.cons_ne_nil kPayloadDirectory [kCheckpointManifestName])
  rw [← hfile] at hkey
  obtain ⟨hcomponents, hlast⟩ := keyComponents_intercalate hnames (by simp [keyNames])
  rw [validate_eq_ok]
  refine ⟨⟨hbucket, ?_⟩, isSupported_of_bucket hsupported ?_ ?_, ?_, ?_⟩
  · refine unbroken_append (unbroken_append (unbroken_append ?_ ?_) (by decide)) (by decide)
    · exact unbroken_keyPrefix config.prefixValid
    · exact unbroken_append (unbroken_append (unbroken_append (by decide) (unbroken_uid huid)) (by decide))
        (unbroken_container haccepted)
  · simp [objectKey]
  · have hinitial := length_keyPrefix_le config.storagePrefix
    have hbound := (isValidStoragePrefix_iff config.prefixValid).1
    have hhandle := length_artifactHandle_le haccepted
    have hliteral : (kPayloadPrefix ++ kCheckpointManifestName).length = 18 := by decide
    simp only [objectKey, List.length_append, List.length_singleton] at hliteral ⊢
    omega
  · simp only [object, hkey, hcomponents]
    exact fun c hc => ⟨(hnames c hc).1, (hnames c hc).2.1, (hnames c hc).2.2.1⟩
  · simpa only [object, hkey] using hlast

/-- A target of the configured store with an accepted identity resolves to its handle. -/
theorem resolveTarget_eq (config : S3Config) {uid container : Bytes}
    (haccepted : validateArtifactIdentity uid container = .ok ()) :
    resolveTarget config ⟨config.storeID, uid, container⟩ = .ok ⟨config.storeID, artifactHandle uid container⟩ := by
  have hstore := config.configured.2
  have hhandle : validateArtifactHandle (artifactHandle uid container) = .ok () :=
    validateArtifactHandle_eq_ok.2 ⟨_, splitHandle_artifactHandle (isName_uid haccepted).2.2.2 container, haccepted⟩
  simp only [resolveTarget, validateArtifactDescriptor, if_neg hstore, ne_eq, not_true, if_false, haccepted, hhandle,
    validate_object config haccepted]
  rfl

/-! ### One identity for both programs -/

/-- The names that PageBroker refuses and the `storage` package does not. -/
def DotUID (uid : Bytes) : Prop := uid = dot ∨ uid = dotdot

theorem opaqueUID_of_dotUID {uid : Bytes} (h : DotUID uid) : OpaqueUID uid := by
  rcases h with rfl | rfl
  · exact api_uid_iff.1 (by decide)
  · exact api_uid_iff.1 (by decide)

/-- The checks of the two programs agree on an identity exactly if it does not put a dot name into an
otherwise accepted one; and among PageBroker's identities a handle stands for one only. -/
theorem identity_shared_iff (store : StoreID) :
    (∀ uid container, (Api.validateArtifactIdentity store.text uid container = .ok ()
        ↔ validateArtifactIdentity uid container = .ok ()) ↔ ¬(DotUID uid ∧ Label container))
    ∧ (∀ (config : S3Config) uid container, validateArtifactIdentity uid container = .ok () →
        resolveTarget config ⟨config.storeID, uid, container⟩ = .ok ⟨config.storeID, artifactHandle uid container⟩)
    ∧ (∀ uid container uid' container', validateArtifactIdentity uid container = .ok () →
        validateArtifactIdentity uid' container' = .ok () →
        artifactHandle uid container = artifactHandle uid' container' → uid = uid' ∧ container = container')
    ∧ (∀ handle, validateArtifactHandle handle = .ok () ↔ ∃! p : Bytes × Bytes,
        validateArtifactIdentity p.1 p.2 = .ok () ∧ artifactHandle p.1 p.2 = handle)
    ∧ (∀ uid container, validateArtifactIdentity uid container = .ok () →
        splitHandle (artifactHandle uid container) = some (uid, container)) := by
  have hinjective : ∀ uid container uid' container', validateArtifactIdentity uid container = .ok () →
      validateArtifactIdentity uid' container' = .ok () →
      artifactHandle uid container = artifactHandle uid' container' → uid = uid' ∧ container = container' :=
    fun uid container uid' container' h h' heq =>
      artifactHandle_injective (isName_uid h).2.2.2 (isName_uid h').2.2.2 heq
  refine ⟨?_, fun config uid container h => resolveTarget_eq config h, hinjective, ?_,
    fun uid container h => splitHandle_artifactHandle (isName_uid h).2.2.2 container⟩
  · intro uid container
    rw [api_accepts_iff, broker_accepts_iff]
    constructor
    · rintro hiff ⟨hdot, hlabel⟩
      obtain ⟨-, hne, hne', -⟩ := hiff.1 ⟨store.wellFormed, opaqueUID_of_dotUID hdot, hlabel⟩
      exact hdot.elim hne hne'
    · intro hdot
      constructor
      · rintro ⟨-, huid, hlabel⟩
        exact ⟨huid, fun h => hdot ⟨.inl h, hlabel⟩, fun h => hdot ⟨.inr h, hlabel⟩, hlabel⟩
      · rintro ⟨huid, -, -, hlabel⟩
        exact ⟨store.wellFormed, huid, hlabel⟩
  · intro handle
    rw [validateArtifactHandle_eq_ok]
    constructor
    · rintro ⟨p, hsplit, haccepted⟩
      refine ⟨p, ⟨haccepted, artifactHandle_of_splitHandle hsplit⟩, ?_⟩
      rintro q ⟨hq, rfl⟩
      have := hinjective q.1 q.2 p.1 p.2 hq haccepted (artifactHandle_of_splitHandle hsplit).symm
      exact Prod.ext this.1 this.2
    · rintro ⟨p, ⟨haccepted, rfl⟩, -⟩
      exact ⟨p, splitHandle_artifactHandle (isName_uid haccepted).2.2.2 p.2, haccepted⟩

/-- A store ID of the smallest digits. -/
def zeroStore : StoreID := ⟨literal "store-v1-" ++ List.replicate 64 0x30, by decide +kernel⟩

theorem dot_uid_disputed : Api.validateArtifactIdentity zeroStore.text dot (literal "main") = .ok ()
    ∧ validateArtifactIdentity dot (literal "main") = .error "invalid artifact UID" := by
  decide +kernel

end S3Layout
