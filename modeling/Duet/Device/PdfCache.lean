import Duet.Domain.Piece
import Duet.Lib.Assoc
import Duet.Lib.Async
import Duet.Lib.Path
import Mathlib.Algebra.GroupWithZero.Nat

/-!
# `DefaultPdfBinaryCache`

The base PDFs that a device has downloaded, each in a file named by its checksum. `pathFor` returns
the file when there is one, else the copy that the piece names, else it downloads the file in place,
verifies it, and evicts files while the directory is over its cap.

The calls of one isolate overlap at their awaits. A download writes what it likes to its file for as
long as it is awaited. Paths are names: a file has one. A file is read whole, at one moment.

## Main definitions

* `CachedPdfs` — the files of the device, and when the cached ones were last opened.
* `DefaultPdfBinaryCache.pathFor` — the call.
* `DefaultPdfBinaryCache.step` — the calls that run, and one event.
* `CacheSegment` — what a call does from one await to the next.
-/

namespace Duet

open Lib Async

/-- The files of the device, whether the cache directory is there, and the preferences. -/
structure CachedPdfs where
  files : Assoc String (List UInt8)
  hasCacheDir : Bool
  lru : Assoc String Int
  deriving DecidableEq, Repr

/-- What the cache is given: where the documents are, its cap, and the checksum of bytes. -/
structure DefaultPdfBinaryCache where
  documentsDirectory : String
  maxCacheBytes : Int
  sha256 : List UInt8 → String

/-- Why a call fails. A platform call and a download bring their own error. -/
inductive CacheError where
  | platform (error : String)
  | pathNotFound (path : String)
  | pdfRender (message : String) (cause : CacheError)
  | stateError (message : String)
  deriving DecidableEq, Repr

/-- What a call awaits: a call of a platform or of a service, or one of its own. -/
inductive CacheAwait where
  | cacheFile
  | touch (hit : Bool)
  | download (attempt : Nat)
  | readAsBytes (attempt : Nat)
  | checksum (attempt : Nat) (actual : Except CacheError String)
  | downloadVerified (result : Except CacheError Unit)
  | cacheDir
  | persistLru
  | evictIfOverCap (result : Except CacheError Unit)
  | guard (result : Except CacheError String)
  deriving DecidableEq

/-- What comes back: whether a platform call or a download has succeeded, the clock, and the files
of the cache directory as they are listed. -/
structure CacheReply where
  result : Except String Unit
  now : DateTime
  listing : List String
  deriving DecidableEq

abbrev CacheProgram (α : Type) := Async CacheAwait CacheReply CachedPdfs CacheError α

namespace CachedPdfs

def existsSync (s : CachedPdfs) (path : String) : Bool := (s.files.get path).isSome

def lengthSync (s : CachedPdfs) (path : String) : Nat := ((s.files.get path).map List.length).getD 0

def totalLength (s : CachedPdfs) (listing : List String) : Int := (listing.map s.lengthSync).sum

def deleteSync (s : CachedPdfs) (path : String) : CachedPdfs :=
  { s with files := s.files.erase path }

/-- `_lru` with one entry set. -/
def touched (s : CachedPdfs) (checksum : String) (now : DateTime) : CachedPdfs :=
  { s with lru := s.lru.set checksum now.micros }

/-- When the file at `path` was last opened. -/
def lastOpened (s : CachedPdfs) (path : String) : Int :=
  (s.lru.get (Path.basenameWithoutExtension path)).getD 0

/-- The files at `paths` are deleted, and so is what is known of them. -/
def evict (s : CachedPdfs) (paths : List String) : CachedPdfs :=
  { s with
    files := paths.foldl Assoc.erase s.files
    lru := (paths.map Path.basenameWithoutExtension).foldl Assoc.erase s.lru }

end CachedPdfs

/-- What an awaited platform call comes back with. -/
def CacheReply.outcome (reply : CacheReply) : Except CacheError Unit :=
  reply.result.mapError .platform

namespace DefaultPdfBinaryCache

variable (cache : DefaultPdfBinaryCache)

/-- The path of the cache directory. -/
def cacheDir : String := Path.join cache.documentsDirectory "pieces_cache"

/-- The path of the cached file with a checksum. -/
def cacheFile (checksum : String) : String := Path.join cache.cacheDir (checksum ++ ".pdf")

/-- The path is in the cache directory. -/
def isCached (path : String) : Bool := Path.isUnder cache.cacheDir path

/-- The file at `path` has the checksum. -/
def Holds (s : CachedPdfs) (path checksum : String) : Prop :=
  (s.files.get path).map cache.sha256 = some checksum

instance (s : CachedPdfs) (path checksum : String) : Decidable (cache.Holds s path checksum) :=
  inferInstanceAs (Decidable (_ = _))

/-- What a call finds on the device: the cached file, or the copy that the piece names. -/
def found? (s : CachedPdfs) (piece : Piece) : Option String :=
  if s.existsSync (cache.cacheFile piece.basePdfChecksum) then
    some (cache.cacheFile piece.basePdfChecksum)
  else if piece.basePdfPath ≠ "" ∧ s.existsSync piece.basePdfPath then some piece.basePdfPath
  else none

/-- The directory of `path` is created. -/
def createParent (s : CachedPdfs) (path : String) : CachedPdfs :=
  { s with hasCacheDir := s.hasCacheDir || cache.isCached path }

/-! ## Eviction -/

/-- The files that are deleted, in their order, while `total` bytes are over the cap. -/
def overCap (s : CachedPdfs) : List String → Int → List String
  | [], _ => []
  | path :: rest, total =>
    if total ≤ cache.maxCacheBytes then []
    else path :: overCap s rest (total - s.lengthSync path)

/-- The files that are evicted from a directory that is listed as `listing`: the least recently
opened ones first. -/
def evicted (s : CachedPdfs) (listing : List String) : List String :=
  cache.overCap s (listing.mergeSort fun p q => s.lastOpened p ≤ s.lastOpened q)
    (s.totalLength listing)

/-! ## `pathFor` -/

/-- `_touch`. -/
def touch (hit : Bool) (checksum : String) (now : DateTime) : CacheProgram Unit := do
  modify fun s => s.touched checksum now
  let reply ← suspend (.touch hit)
  ofExcept reply.outcome

/-- The bytes at `path` are read, and what their checksum is. -/
def checksumAt (s : CachedPdfs) (path : String) (reply : CacheReply) : Except CacheError String :=
  let failed := CacheError.pdfRender s!"Failed to checksum {path}: "
  match reply.result, s.files.get path with
  | .error error, _ => .error (failed (.platform error))
  | .ok _, none => .error (failed (.pathNotFound path))
  | .ok _, some bytes => .ok (cache.sha256 bytes)

/-- One attempt of `_downloadVerified`; after a mismatch the file is deleted, and `again` is next. -/
def downloadAttempt (piece : Piece) (attempt : Nat) (again : CacheProgram Unit) :
    CacheProgram Unit := do
  let path := cache.cacheFile piece.basePdfChecksum
  let reply ← suspend (.download attempt)
  ofExcept reply.outcome
  let reply ← suspend (.readAsBytes attempt)
  let s ← get
  let actual := cache.checksumAt s path reply
  let _ ← suspend (.checksum attempt actual)
  let actual ← ofExcept actual
  if actual = piece.basePdfChecksum then done ()
  else do
    modify fun s => s.deleteSync path
    again

/-- Why `_downloadVerified` gives up. -/
def unverified (piece : Piece) : CacheError :=
  .stateError s!"Base PDF for {piece.id} failed checksum verification after re-download"

/-- `_downloadVerified`. -/
def downloadVerified (piece : Piece) : CacheProgram Unit := do
  modify fun s => cache.createParent s (cache.cacheFile piece.basePdfChecksum)
  cache.downloadAttempt piece 0 (cache.downloadAttempt piece 1 (fail (unverified piece)))

/-- `_evictIfOverCap`. -/
def evictIfOverCap : CacheProgram Unit := do
  let reply ← suspend .cacheDir
  ofExcept reply.outcome
  let s ← get
  if !s.hasCacheDir then done ()
  else if s.totalLength reply.listing ≤ cache.maxCacheBytes then done ()
  else do
    modify fun s => s.evict (cache.evicted s reply.listing)
    let reply ← suspend .persistLru
    ofExcept reply.outcome

/-- `pathFor` from where the download has ended. -/
def cacheVerified (piece : Piece) (verified : Except CacheError Unit) : CacheProgram String := do
  let reply ← suspend (.downloadVerified verified)
  ofExcept verified
  touch false piece.basePdfChecksum reply.now
  let evicted ← attempt cache.evictIfOverCap
  let _ ← suspend (.evictIfOverCap evicted)
  ofExcept evicted
  done (cache.cacheFile piece.basePdfChecksum)

/-- The body of `pathFor`. -/
def resolve (piece : Piece) : CacheProgram String := do
  let reply ← suspend .cacheFile
  ofExcept reply.outcome
  let path := cache.cacheFile piece.basePdfChecksum
  let s ← get
  if s.existsSync path then do
    touch true piece.basePdfChecksum reply.now
    done path
  else if piece.basePdfPath ≠ "" ∧ s.existsSync piece.basePdfPath then done piece.basePdfPath
  else do
    let verified ← attempt (cache.downloadVerified piece)
    cache.cacheVerified piece verified

/-- What `Result.guard` does once its action has ended: it has awaited it. -/
def guard (result : Except CacheError String) : CacheProgram String := do
  let _ ← suspend (.guard result)
  ofExcept result

def pathFor (piece : Piece) : CacheProgram String := do
  let result ← attempt (cache.resolve piece)
  guard result

end DefaultPdfBinaryCache

/-! ## Runs -/

/-- The device, and the calls of `pathFor` that run. -/
abbrev PdfCaches := Lib.Isolate Piece CacheAwait CacheReply CachedPdfs CacheError String

/-- What can happen: an event of the calls, the download that the `i`-th call awaits has got so far,
or a file outside the cache directory is written or deleted. -/
inductive CacheEvent where
  | calls (e : Lib.IsolateEvent Piece CacheReply)
  | write (i : Nat) (bytes : List UInt8)
  | device (path : String) (content : Option (List UInt8))
  deriving DecidableEq

/-- The file at `path` has a content, or is not there. -/
def CachedPdfs.put (s : CachedPdfs) (path : String) : Option (List UInt8) → CachedPdfs
  | some bytes => { s with files := s.files.set path bytes }
  | none => s.deleteSync path

namespace DefaultPdfBinaryCache

variable (cache : DefaultPdfBinaryCache)

/-- The cache directory may be listed in any order. -/
def enabled (s : PdfCaches) : CacheEvent → Bool
  | .calls (.resume i reply) =>
    match s.running[i]?.bind fun task => task.rest.point? with
    | some .cacheDir => reply.listing.isPerm
        ((s.state.files.map Prod.fst).filter (Path.isEntryOf cache.cacheDir))
    | _ => true
  | .calls _ => true
  | .write i _ =>
    match s.running[i]?.bind fun task => task.rest.point? with
    | some (.download _) => true
    | _ => false
  | .device path _ => !cache.isCached path

/-- One event. A killed app keeps its files and its preferences. -/
def step (s : PdfCaches) (e : CacheEvent) : Option PdfCaches :=
  if cache.enabled s e then
    match e with
    | .calls e => Lib.Isolate.step cache.pathFor id s e
    | .write i bytes => s.running[i]?.map fun task =>
        { s with state := s.state.put (cache.cacheFile task.call.basePdfChecksum) (some bytes) }
    | .device path content => some { s with state := s.state.put path content }
  else none

end DefaultPdfBinaryCache

/-- Nothing has been downloaded, and nothing is known. -/
def CachedPdfs.fresh : CachedPdfs := ⟨[], false, []⟩

/-! ## The segments of the calls -/

open DefaultPdfBinaryCache in
/-- What `pathFor` does for a piece, from one await to the next. -/
inductive CacheSegment (cache : DefaultPdfBinaryCache) (piece : Piece) :
    Option (CacheAwait × CacheReply) → CachedPdfs → Stop CacheAwait CacheError String →
      CachedPdfs → Prop where
  | begin (s) : CacheSegment cache piece none s (.waits .cacheFile) s
  | nowhere (s reply error) : reply.outcome = .error error →
    CacheSegment cache piece (some (.cacheFile, reply)) s (.waits (.guard (.error error))) s
  | hit (s reply) : reply.outcome = .ok () →
    s.existsSync (cache.cacheFile piece.basePdfChecksum) = true →
    CacheSegment cache piece (some (.cacheFile, reply)) s (.waits (.touch true))
      (s.touched piece.basePdfChecksum reply.now)
  | onDevice (s reply) : reply.outcome = .ok () → cache.found? s piece = some piece.basePdfPath →
    CacheSegment cache piece (some (.cacheFile, reply)) s
      (.waits (.guard (.ok piece.basePdfPath))) s
  | miss (s reply) : CacheSegment cache piece (some (.cacheFile, reply)) s (.waits (.download 0))
      (cache.createParent s (cache.cacheFile piece.basePdfChecksum))
  | touched (s reply) : CacheSegment cache piece (some (.touch true, reply)) s
      (.waits (.guard (reply.outcome.map fun _ => cache.cacheFile piece.basePdfChecksum))) s
  | downloaded (s attempt reply) : CacheSegment cache piece (some (.download attempt, reply)) s
      (.waits (.readAsBytes attempt)) s
  | notDownloaded (s attempt reply error) : reply.outcome = .error error →
    CacheSegment cache piece (some (.download attempt, reply)) s
      (.waits (.downloadVerified (.error error))) s
  | read (s attempt reply) : CacheSegment cache piece (some (.readAsBytes attempt, reply)) s
      (.waits (.checksum attempt
        (cache.checksumAt s (cache.cacheFile piece.basePdfChecksum) reply))) s
  | notRead (s attempt reply error) :
    CacheSegment cache piece (some (.checksum attempt (.error error), reply)) s
      (.waits (.downloadVerified (.error error))) s
  | verified (s attempt reply) :
    CacheSegment cache piece (some (.checksum attempt (.ok piece.basePdfChecksum), reply)) s
      (.waits (.downloadVerified (.ok ()))) s
  | mismatch (s attempt reply actual point) : actual ≠ piece.basePdfChecksum →
    point = .download 1 ∨ point = .downloadVerified (.error (unverified piece)) →
    CacheSegment cache piece (some (.checksum attempt (.ok actual), reply)) s (.waits point)
      (s.deleteSync (cache.cacheFile piece.basePdfChecksum))
  | cached (s reply) : CacheSegment cache piece (some (.downloadVerified (.ok ()), reply)) s
      (.waits (.touch false)) (s.touched piece.basePdfChecksum reply.now)
  | notCached (s error reply) :
    CacheSegment cache piece (some (.downloadVerified (.error error), reply)) s
      (.waits (.guard (.error error))) s
  | evicting (s reply) : CacheSegment cache piece (some (.touch false, reply)) s
      (.waits .cacheDir) s
  | notTouched (s reply error) : reply.outcome = .error error →
    CacheSegment cache piece (some (.touch false, reply)) s (.waits (.guard (.error error))) s
  | inCap (s reply result) : CacheSegment cache piece (some (.cacheDir, reply)) s
      (.waits (.evictIfOverCap result)) s
  | evict (s reply) : reply.outcome = .ok () → s.hasCacheDir = true →
    CacheSegment cache piece (some (.cacheDir, reply)) s (.waits .persistLru)
      (s.evict (cache.evicted s reply.listing))
  | persisted (s reply) : CacheSegment cache piece (some (.persistLru, reply)) s
      (.waits (.evictIfOverCap reply.outcome)) s
  | evicted (s result reply) : CacheSegment cache piece (some (.evictIfOverCap result, reply)) s
      (.waits (.guard (result.map fun _ => cache.cacheFile piece.basePdfChecksum))) s
  | ended (s result reply) : CacheSegment cache piece (some (.guard result, reply)) s
      (.ends result) s

namespace DefaultPdfBinaryCache

variable {cache : DefaultPdfBinaryCache} {piece : Piece} {from? : Option (CacheAwait × CacheReply)}
  {s₀ s : CachedPdfs}

/-- The body ends where the call goes on to its last await. -/
theorem guarded_ends {result : Except CacheError String}
    (h : CacheSegment cache piece from? s₀ (.waits (.guard result)) s) :
    Stop.AttemptThen (CacheSegment cache piece) guard from? s₀ (.ends result) s :=
  ⟨h, fun t reply => followsOn_ofExcept.mpr (.ended t result reply)⟩

/-- An attempt of the download goes through its segments, and then `again` does. -/
theorem follows_downloadAttempt {seg : Option (CacheAwait × CacheReply) → CachedPdfs →
      Stop CacheAwait CacheError Unit → CachedPdfs → Prop} {attempt : Nat} {again : CacheProgram Unit}
    (hwaits : ∀ from? s₀ point s, CacheSegment cache piece from? s₀ (.waits point) s →
      seg from? s₀ (.waits point) s)
    (hends : ∀ from? s₀ result s,
      CacheSegment cache piece from? s₀ (.waits (.downloadVerified result)) s →
        seg from? s₀ (.ends result) s)
    (hbegin : seg from? s₀ (.waits (.download attempt)) s)
    (hagain : ∀ s actual reply, actual ≠ piece.basePdfChecksum →
      again.FollowsOn seg (some (.checksum attempt (.ok actual), reply)) s
        (s.deleteSync (cache.cacheFile piece.basePdfChecksum))) :
    (cache.downloadAttempt piece attempt again).FollowsOn seg from? s₀ s := by
  refine ⟨hbegin, fun s reply => followsOn_ofExcept_bind.mpr ⟨fun error houtcome => ?_, fun _ _ => ?_⟩⟩
  · exact hends _ _ _ _ (.notDownloaded s attempt reply error houtcome)
  refine ⟨hwaits _ _ _ _ (.downloaded s attempt reply), fun s reply => ?_⟩
  refine ⟨hwaits _ _ _ _ (.read s attempt reply), fun t reply' => ?_⟩
  refine followsOn_ofExcept_bind.mpr ⟨fun error hactual => ?_, fun actual hactual => ?_⟩
  · rw [hactual]
    exact hends _ _ _ _ (.notRead t attempt reply' error)
  · rw [hactual]
    split_ifs with hsame
    · subst hsame
      exact hends _ _ _ _ (.verified t attempt reply')
    · exact hagain t actual reply' hsame

/-- What follows the eviction, from where it has ended. -/
theorem follows_evicted {evicted : Except CacheError Unit}
    (h : CacheSegment cache piece from? s₀ (.waits (.evictIfOverCap evicted)) s) :
    (do let _ ← suspend (.evictIfOverCap evicted)
        ofExcept evicted
        done (cache.cacheFile piece.basePdfChecksum) : CacheProgram String).FollowsOn
      (Stop.AttemptThen (CacheSegment cache piece) guard) from? s₀ s := by
  refine ⟨h, fun t reply => ?_⟩
  have hend : CacheSegment cache piece (some (.evictIfOverCap evicted, reply)) t _ t :=
    .evicted t evicted reply
  cases evicted <;> exact guarded_ends hend

theorem follows_evictIfOverCap (h : CacheSegment cache piece from? s₀ (.waits .cacheDir) s) :
    cache.evictIfOverCap.FollowsOn (Stop.AttemptThen
      (Stop.AttemptThen (CacheSegment cache piece) guard) fun evicted => do
        let _ ← suspend (.evictIfOverCap evicted)
        ofExcept evicted
        done (cache.cacheFile piece.basePdfChecksum)) from? s₀ s := by
  refine ⟨h, fun s reply => followsOn_ofExcept_bind.mpr ⟨fun error _ => ?_, fun _ hok => ?_⟩⟩
  · exact follows_evicted (.inCap s reply _)
  rw [followsOn_get_bind]
  split_ifs with hdir hcap
  · exact follows_evicted (.inCap s reply _)
  · exact follows_evicted (.inCap s reply _)
  · have hdir : s.hasCacheDir = true := by simpa using hdir
    refine ⟨.evict s reply hok hdir, fun t reply => ?_⟩
    exact followsOn_ofExcept.mpr (follows_evicted (.persisted t reply))

theorem follows_cacheVerified {verified : Except CacheError Unit}
    (h : CacheSegment cache piece from? s₀ (.waits (.downloadVerified verified)) s) :
    (cache.cacheVerified piece verified).FollowsOn
      (Stop.AttemptThen (CacheSegment cache piece) guard) from? s₀ s := by
  refine ⟨h, fun s reply => ?_⟩
  cases verified with
  | error error => exact guarded_ends (.notCached s error reply)
  | ok _ =>
    refine ⟨.cached s reply, fun s reply =>
      followsOn_ofExcept_bind.mpr ⟨fun error houtcome => ?_, fun _ _ => ?_⟩⟩
    · exact guarded_ends (.notTouched s reply error houtcome)
    · exact followsOn_attempt_bind.mpr (follows_evictIfOverCap (.evicting s reply))

theorem follows_downloadVerified
    (h : CacheSegment cache piece from? s₀ (.waits (.download 0))
      (cache.createParent s (cache.cacheFile piece.basePdfChecksum))) :
    (cache.downloadVerified piece).FollowsOn (Stop.AttemptThen
      (Stop.AttemptThen (CacheSegment cache piece) guard) (cache.cacheVerified piece)) from? s₀ s := by
  have hends : ∀ from? s₀ result s,
      CacheSegment cache piece from? s₀ (.waits (.downloadVerified result)) s →
        (cache.cacheVerified piece result).FollowsOn
          (Stop.AttemptThen (CacheSegment cache piece) guard) from? s₀ s :=
    fun _ _ _ _ hseg => follows_cacheVerified hseg
  refine follows_downloadAttempt (fun _ _ _ _ hseg => hseg) hends h fun s actual reply hne => ?_
  refine follows_downloadAttempt (fun _ _ _ _ hseg => hseg) hends
    (.mismatch s 0 reply actual _ hne (.inl rfl)) fun s actual reply hne => ?_
  exact follows_cacheVerified (.mismatch s 1 reply actual _ hne (.inr rfl))

/-- Every call goes through its segments. -/
theorem follows_pathFor (piece : Piece) (s : CachedPdfs) :
    (cache.pathFor piece).FollowsOn (CacheSegment cache piece) none s s := by
  refine followsOn_attempt_bind.mpr ⟨.begin s, fun s reply =>
    followsOn_ofExcept_bind.mpr ⟨fun error houtcome => ?_, fun _ hok => ?_⟩⟩
  · exact guarded_ends (.nowhere s reply error houtcome)
  rw [followsOn_get_bind]
  split_ifs with hexists hdevice
  · refine ⟨.hit s reply hok hexists, fun s reply => ?_⟩
    have htouched : CacheSegment cache piece (some (.touch true, reply)) s _ s := .touched s reply
    refine followsOn_ofExcept_bind.mpr ⟨fun error houtcome => ?_, fun _ houtcome => ?_⟩
    all_goals
      rw [houtcome] at htouched
      exact guarded_ends htouched
  · refine guarded_ends (.onDevice s reply hok ?_)
    rw [found?, if_neg hexists, if_pos hdevice]
  · exact followsOn_attempt_bind.mpr (follows_downloadVerified (.miss s reply))

end DefaultPdfBinaryCache

end Duet
