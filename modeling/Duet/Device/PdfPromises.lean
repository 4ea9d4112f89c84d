import Duet.Device.PdfCache
import Duet.Lib.Transition

/-!
# The file that `pathFor` returns

A download writes to the file under its final name, and the call verifies it afterwards. A call that
has found or verified the cached file promises it to its caller, and returns it after more awaits.
Meanwhile the file may be overwritten by another download of it, deleted after such a download, or
evicted; and a file that is found may be what a download has left behind or is still writing.

## Main results

* `inv_step` — while nothing disturbs them, every file in the cache directory has the checksum that it
  is named by or is still to be verified, and a promised file has the checksum of its piece.
* `sound_of_undisturbed` — in such a run, every path in the cache directory that is returned is that
  of a file with the checksum of the piece.
* `not_sound` — a download that has failed leaves a file that the next call returns.
-/

namespace Duet

open Lib Async

namespace DefaultPdfBinaryCache

variable (cache : DefaultPdfBinaryCache)

/-- The path that a call returns if nothing fails from here on. -/
def promised? (piece : Piece) : CacheAwait → Option String
  | .touch _ | .cacheDir | .persistLru => some (cache.cacheFile piece.basePdfChecksum)
  | .checksum _ (.ok actual) =>
    if actual = piece.basePdfChecksum then some (cache.cacheFile piece.basePdfChecksum) else none
  | .downloadVerified (.ok _) | .evictIfOverCap (.ok _) =>
    some (cache.cacheFile piece.basePdfChecksum)
  | .guard (.ok path) => some path
  | _ => none

/-- The checksums for which the calls that run promise the file at `path`. -/
def promises (s : PdfCaches) (path : String) : List String :=
  s.running.filterMap fun task =>
    if task.rest.point?.bind (cache.promised? task.call) = some path then
      some task.call.basePdfChecksum
    else none

/-- The file that a call downloads, as long as it has not verified it. -/
def downloading? (piece : Piece) : CacheAwait → Option String
  | .download _ | .readAsBytes _ => some (cache.cacheFile piece.basePdfChecksum)
  | .checksum _ (.ok actual) =>
    if actual = piece.basePdfChecksum then none else some (cache.cacheFile piece.basePdfChecksum)
  | _ => none

/-- The files that the calls that run download and have not verified. -/
def downloading (s : PdfCaches) : List String :=
  s.collect fun piece point => (cache.downloading? piece point).toList

/-- The file of a piece is not there, has its checksum, or is not in the cache directory. -/
def LeavesRight (s : CachedPdfs) (piece : Piece) : Prop :=
  cache.isCached (cache.cacheFile piece.basePdfChecksum) = true →
    s.existsSync (cache.cacheFile piece.basePdfChecksum) = true →
      cache.Holds s (cache.cacheFile piece.basePdfChecksum) piece.basePdfChecksum

instance (s : CachedPdfs) (piece : Piece) : Decidable (cache.LeavesRight s piece) := by
  unfold LeavesRight
  infer_instance

/-- When the `i`-th call is resumed, it finds no file that another one has yet to verify, and no other
one of the cache directory as the piece's own copy; a download does not break off and leave something
else; and no promised file is deleted. -/
def UndisturbedAt (s : PdfCaches) (i : Nat) (piece : Piece) (reply : CacheReply) : CacheAwait → Prop
  | .cacheFile => reply.outcome = .ok () → ∀ path ∈ cache.found? s.state piece,
      cache.isCached path = true → path = cache.cacheFile piece.basePdfChecksum ∧
        (path ∈ cache.downloading s → cache.Holds s.state path piece.basePdfChecksum)
  | .download _ | .readAsBytes _ => reply.outcome ≠ .ok () → cache.LeavesRight s.state piece ∨
      cache.cacheFile piece.basePdfChecksum ∈
        cache.downloading { s with running := s.running.eraseIdx i }
  | .checksum _ (.ok actual) => actual ≠ piece.basePdfChecksum →
      cache.promises s (cache.cacheFile piece.basePdfChecksum) = []
  | .cacheDir => reply.outcome = .ok () → s.state.hasCacheDir = true →
      ∀ path ∈ cache.evicted s.state reply.listing, cache.promises s path = []
  | _ => True

/-- An event disturbs no call: different checksums name different files, the app is not killed in a
download that has written something else, and no promised file is overwritten. -/
def Undisturbed (s : PdfCaches) : CacheEvent → Prop
  | .calls (.call piece) => ∀ other ∈ s.called,
      cache.cacheFile other.basePdfChecksum = cache.cacheFile piece.basePdfChecksum →
        other.basePdfChecksum = piece.basePdfChecksum
  | .calls (.resume i reply) => ∀ task ∈ s.running[i]?, ∀ point ∈ task.rest.point?,
      cache.UndisturbedAt s i task.call reply point
  | .calls .kill => ∀ task ∈ s.running,
      (task.rest.point?.bind (cache.downloading? task.call)).isSome →
        cache.LeavesRight s.state task.call
  | .write i bytes => ∀ task ∈ s.running[i]?,
      ∀ checksum ∈ cache.promises s (cache.cacheFile task.call.basePdfChecksum),
        cache.sha256 bytes = checksum
  | .device _ _ => True

instance (s : PdfCaches) (i : Nat) (piece : Piece) (reply : CacheReply) (point : CacheAwait) :
    Decidable (cache.UndisturbedAt s i piece reply point) := by
  unfold UndisturbedAt
  split <;> infer_instance

instance (s : PdfCaches) (e : CacheEvent) : Decidable (cache.Undisturbed s e) := by
  unfold Undisturbed
  split <;> infer_instance

/-- The paths in the cache directory that a step returns are those of files with the checksums of
their pieces. -/
def ReturnsSound (s t : PdfCaches) : Prop :=
  ∀ returned ∈ t.finished.drop s.finished.length, ∀ path ∈ returned.2.toOption,
    cache.isCached path = true → cache.Holds t.state path returned.1.basePdfChecksum

/-- A file of the cache directory has the checksum of a piece that it is named by. -/
def Right (s : PdfCaches) (path : String) : Prop :=
  ∃ piece ∈ s.called, path = cache.cacheFile piece.basePdfChecksum ∧
    cache.Holds s.state path piece.basePdfChecksum

/-- Every file in the cache directory is right or has yet to be verified; every promised one has the
checksum it is promised for; and different checksums name different files. -/
structure Inv (s : PdfCaches) : Prop where
  obeys : s.ObeysOn (CacheSegment cache)
  called : ∀ task ∈ s.running, task.call ∈ s.called
  names : ∀ p ∈ s.called, ∀ q ∈ s.called,
    cache.cacheFile p.basePdfChecksum = cache.cacheFile q.basePdfChecksum →
      p.basePdfChecksum = q.basePdfChecksum
  right : ∀ path, cache.isCached path = true → s.state.existsSync path = true →
    cache.Right s path ∨ path ∈ cache.downloading s
  holds : ∀ path, cache.isCached path = true → ∀ checksum ∈ cache.promises s path,
    cache.Holds s.state path checksum

variable {cache} {s t : PdfCaches} {piece : Piece} {path checksum : String}

theorem mem_promises : checksum ∈ cache.promises s path ↔ ∃ task ∈ s.running,
    task.rest.point?.bind (cache.promised? task.call) = some path ∧
      task.call.basePdfChecksum = checksum := by
  simp [promises]

/-! ## Segments -/

section

variable {point : CacheAwait} {reply : CacheReply} {stop : Stop CacheAwait CacheError String}
  {u : CachedPdfs} {i attempt : Nat}

/-- A segment leaves a promised file alone. -/
theorem get_of_segment (hseg : CacheSegment cache piece (some (point, reply)) s.state stop u)
    (hundisturbed : cache.UndisturbedAt s i piece reply point)
    (hpromised : cache.promises s path ≠ []) : u.files.get path = s.state.files.get path := by
  cases hseg with
  | mismatch _ attempt _ actual _ hne _ =>
    have hother : path ≠ cache.cacheFile piece.basePdfChecksum := by
      rintro rfl
      exact hpromised (hundisturbed hne)
    exact Assoc.get_erase_of_ne _ hother
  | evict _ _ hok hdir =>
    have hstays : path ∉ cache.evicted s.state reply.listing :=
      fun hmem => hpromised (hundisturbed hok hdir path hmem)
    exact Assoc.get_foldl_erase_of_not_mem hstays _
  | _ => rfl

/-- A segment writes no file. -/
theorem get_of_existsSync {from? : Option (CacheAwait × CacheReply)} {s : CachedPdfs}
    (hseg : CacheSegment cache piece from? s stop u) (hexists : u.existsSync path = true) :
    u.files.get path = s.files.get path := by
  cases hseg with
  | mismatch =>
    refine Assoc.get_erase_of_ne _ fun heq => ?_
    simp [CachedPdfs.existsSync, CachedPdfs.deleteSync, heq] at hexists
  | evict =>
    refine Assoc.get_foldl_erase_of_not_mem (fun hmem => ?_) _
    simp [CachedPdfs.existsSync, CachedPdfs.evict, Assoc.get_foldl_erase, hmem] at hexists
  | _ => rfl

/-- What has been read as the checksum of a piece is in the file. -/
theorem holds_of_checksumAt {state : CachedPdfs}
    (h : cache.promised? piece (.checksum attempt
      (cache.checksumAt state (cache.cacheFile piece.basePdfChecksum) reply)) = some path) :
    cache.Holds state path piece.basePdfChecksum := by
  unfold checksumAt at h
  split at h
  · cases h
  · cases h
  · next bytes _ hbytes =>
    simp only [promised?, Option.ite_none_right_eq_some, Option.some.injEq] at h
    obtain ⟨hsum, rfl⟩ := h
    rw [Holds, hbytes, Option.map_some, hsum]

theorem existsSync_of_found? {s : CachedPdfs} (h : cache.found? s piece = some path) :
    s.existsSync path = true := by
  unfold found? at h
  split_ifs at h with hexists hown
  · obtain rfl := Option.some.inj h
    exact hexists
  · obtain rfl := Option.some.inj h
    exact hown.2

/-- What a call finds has its checksum: what has been verified is right, and what has yet to be
verified is not found, or is right as well. -/
theorem holds_of_found? (h : cache.Inv s) (hpiece : piece ∈ s.called)
    (hundisturbed : cache.UndisturbedAt s i piece reply .cacheFile) (hok : reply.outcome = .ok ())
    (hfound : cache.found? s.state piece = some path) (hcached : cache.isCached path = true) :
    cache.Holds s.state path piece.basePdfChecksum := by
  obtain ⟨hown, hloading⟩ := hundisturbed hok path hfound hcached
  obtain ⟨other, hother, hname, hholds⟩ | hmem := h.right path hcached (existsSync_of_found? hfound)
  · rw [h.names piece hpiece other hother (hown.symm.trans hname)]
    exact hholds
  · exact hloading hmem

/-- Where a segment promises a file, it has the checksum of the piece. -/
theorem holds_of_segment (h : cache.Inv s) {task : Task Piece CacheAwait CacheReply CachedPdfs
      CacheError String} (htask : task ∈ s.running) (hpoint : task.rest.point? = some point)
    (hseg : CacheSegment cache task.call (some (point, reply)) s.state stop u)
    (hundisturbed : cache.UndisturbedAt s i task.call reply point)
    (hstop : stop.point?.bind (cache.promised? task.call) = some path)
    (hcached : cache.isCached path = true) : cache.Holds u path task.call.basePdfChecksum := by
  have hstill : cache.promised? task.call point = some path →
      cache.Holds u path task.call.basePdfChecksum := by
    intro hpromised
    have hmem : task.call.basePdfChecksum ∈ cache.promises s path :=
      mem_promises.mpr ⟨task, htask, by rw [hpoint]; exact hpromised, rfl⟩
    rw [Holds, get_of_segment hseg hundisturbed (List.ne_nil_of_mem hmem)]
    exact h.holds path hcached _ hmem
  cases hseg with
  | hit _ _ hok hexists =>
    obtain rfl := Option.some.inj hstop
    exact holds_of_found? h (h.called task htask) hundisturbed hok (if_pos hexists) hcached
  | onDevice _ _ hok hfound =>
    obtain rfl := Option.some.inj hstop
    exact holds_of_found? h (h.called task htask) hundisturbed hok hfound hcached
  | touched =>
    cases houtcome : reply.outcome with
    | error error =>
      rw [houtcome] at hstop
      cases hstop
    | ok _ =>
      rw [houtcome] at hstop
      exact hstill hstop
  | read => exact holds_of_checksumAt hstop
  | verified => exact hstill ((if_pos rfl).trans hstop)
  | mismatch _ _ _ _ _ _ hnext => obtain rfl | rfl := hnext <;> cases hstop
  | cached | evicting | evict => exact hstill hstop
  | inCap _ _ result =>
    cases result with
    | error error => cases hstop
    | ok _ => exact hstill hstop
  | persisted =>
    cases houtcome : reply.outcome with
    | error error =>
      rw [houtcome] at hstop
      cases hstop
    | ok _ =>
      rw [houtcome] at hstop
      exact hstill hstop
  | evicted _ result =>
    cases result with
    | error error => cases hstop
    | ok _ => exact hstill hstop
  | _ => cases hstop

/-- A file that a call leaves behind is right, or it goes on to verify it. -/
theorem holds_or_downloading (hundisturbed : cache.UndisturbedAt s i piece reply point)
    (hseg : CacheSegment cache piece (some (point, reply)) s.state stop u)
    (hpoint : cache.downloading? piece point = some path) (hcached : cache.isCached path = true)
    (hexists : u.existsSync path = true) : cache.Holds u (cache.cacheFile piece.basePdfChecksum)
        piece.basePdfChecksum ∧ path = cache.cacheFile piece.basePdfChecksum ∨
      path ∈ cache.downloading { s with running := s.running.eraseIdx i } ∨
        stop.point?.bind (cache.downloading? piece) = some path := by
  have hbroken : reply.outcome ≠ .ok () → u = s.state →
      path = cache.cacheFile piece.basePdfChecksum →
      (reply.outcome ≠ .ok () → cache.LeavesRight s.state piece ∨
        cache.cacheFile piece.basePdfChecksum ∈
          cache.downloading { s with running := s.running.eraseIdx i }) →
      cache.Holds u (cache.cacheFile piece.basePdfChecksum) piece.basePdfChecksum ∧
          path = cache.cacheFile piece.basePdfChecksum ∨
        path ∈ cache.downloading { s with running := s.running.eraseIdx i } := by
    rintro hfails rfl rfl hleaves
    exact (hleaves hfails).imp_left fun hright => ⟨hright hcached hexists, rfl⟩
  cases hseg with
  | downloaded => exact .inr (.inr hpoint)
  | notDownloaded _ _ _ error houtcome =>
    have hfails : reply.outcome ≠ .ok () := by simp [houtcome]
    exact (hbroken hfails rfl (Option.some.inj hpoint).symm hundisturbed).imp_right .inl
  | read =>
    obtain rfl := Option.some.inj hpoint
    cases hresult : reply.result with
    | error error =>
      have hfails : reply.outcome ≠ .ok () := by simp [CacheReply.outcome, hresult, Except.mapError]
      exact (hbroken hfails rfl rfl hundisturbed).imp_right .inl
    | ok _ =>
      obtain ⟨bytes, hbytes⟩ := Option.isSome_iff_exists.mp hexists
      by_cases hsum : cache.sha256 bytes = piece.basePdfChecksum
      · exact .inl ⟨by rw [Holds, hbytes, Option.map_some, hsum], rfl⟩
      · refine .inr (.inr ?_)
        simp [Stop.point?, checksumAt, hresult, hbytes, downloading?, hsum]
  | verified => simp [downloading?] at hpoint
  | mismatch _ _ _ actual _ hne _ =>
    simp only [downloading?, if_neg hne, Option.some.injEq] at hpoint
    subst hpoint
    simp [CachedPdfs.existsSync, CachedPdfs.deleteSync] at hexists
  | _ => cases hpoint

end

/-! ## Runs -/

theorem inv_fresh : cache.Inv (Lib.Isolate.start .fresh) where
  obeys := nofun
  called := nofun
  names := nofun
  right := nofun
  holds := nofun

/-- A call that has been settled promises what it stopped with. -/
theorem mem_promises_settle {r : PdfCaches} {left : CacheProgram String × CachedPdfs}
    {stop : Stop CacheAwait CacheError String} (hstop : left.1.stop? = some stop)
    (h : checksum ∈ cache.promises (r.settle piece left) path) :
    checksum ∈ cache.promises r path ∨
      stop.point?.bind (cache.promised? piece) = some path ∧ piece.basePdfChecksum = checksum := by
  obtain ⟨task, htask, hpromised, hsum⟩ := mem_promises.mp h
  obtain hold | rfl := Lib.Isolate.mem_running_settle htask
  · exact .inl (mem_promises.mpr ⟨task, hold, hpromised, hsum⟩)
  refine .inr ⟨?_, hsum⟩
  rw [← hpromised]
  cases stop with
  | waits point => rw [(point?_of_stop? hstop).1]; rfl
  | ends outcome => rw [(ended?_of_stop? hstop).1]; rfl

/-- A call that is resumed no longer promises what it did. -/
theorem mem_promises_eraseIdx {i : Nat}
    (h : checksum ∈ cache.promises { s with running := s.running.eraseIdx i } path) :
    checksum ∈ cache.promises s path := by
  obtain ⟨task, htask, hpromised⟩ := mem_promises.mp h
  exact mem_promises.mpr ⟨task, List.mem_of_mem_eraseIdx htask, hpromised⟩

/-- What the calls download once one of them has stopped. -/
theorem mem_downloading_settle {r : PdfCaches} {left : CacheProgram String × CachedPdfs}
    {stop : Stop CacheAwait CacheError String} (hstop : left.1.stop? = some stop)
    (h : path ∈ cache.downloading r ∨ stop.point?.bind (cache.downloading? piece) = some path) :
    path ∈ cache.downloading (r.settle piece left) := by
  rw [downloading, Lib.Isolate.collect_settle hstop, List.mem_append]
  refine h.imp_right fun hnew => ?_
  obtain ⟨point, hpoint, hpath⟩ := Option.bind_eq_some_iff.mp hnew
  simp [hpoint, hpath]

theorem mem_called_settle {r : PdfCaches} {left : CacheProgram String × CachedPdfs}
    (h : ∀ task ∈ r.running, task.call ∈ r.called) (hpiece : piece ∈ r.called) :
    ∀ task ∈ (r.settle piece left).running, task.call ∈ (r.settle piece left).called := by
  intro task htask
  rw [Lib.Isolate.called_settle]
  obtain hold | rfl := Lib.Isolate.mem_running_settle htask
  · exact h task hold
  · exact hpiece

/-- A file that has not changed stays right. -/
theorem Right.of_get_eq {r : PdfCaches} (h : cache.Right s path) (hcalled : s.called ⊆ r.called)
    (hget : r.state.files.get path = s.state.files.get path) : cache.Right r path := by
  obtain ⟨piece, hpiece, hname, hholds⟩ := h
  exact ⟨piece, hcalled hpiece, hname, by rwa [Holds, hget]⟩

/-- The files outside the cache directory may change, one that is being downloaded may be written,
and a promised one overwritten with the like. -/
theorem Inv.put (h : cache.Inv s) {content : Option (List UInt8)}
    (hloading : cache.isCached path = true → path ∈ cache.downloading s)
    (hput : cache.isCached path = true → ∀ checksum ∈ cache.promises s path,
      content.map cache.sha256 = some checksum) :
    cache.Inv { s with state := s.state.put path content } := by
  have hget : ∀ path', (s.state.put path content).files.get path' =
      if path' = path then content else s.state.files.get path' := by
    intro path'
    cases content with
    | none => exact Assoc.get_erase _ _ _
    | some bytes => exact Assoc.get_set _ _ _ _
  refine ⟨h.obeys, h.called, h.names, fun path' hcached hexists => ?_,
    fun path' hcached checksum hmem => ?_⟩
  · by_cases heq : path' = path
    · subst heq
      exact .inr (hloading hcached)
    · have hsame := hget path'
      rw [if_neg heq] at hsame
      refine (h.right path' hcached ?_).imp_left fun hright => ?_
      · rwa [CachedPdfs.existsSync, hsame] at hexists
      · exact hright.of_get_eq (List.Subset.refl _) hsame
  · have hbefore := h.holds path' hcached checksum hmem
    unfold Holds at hbefore ⊢
    rw [hget]
    split_ifs with heq
    · subst heq
      exact hput hcached checksum hmem
    · exact hbefore

theorem Inv.call (h : cache.Inv s) (hundisturbed : cache.Undisturbed s (.calls (.call piece)))
    (hstep : Lib.Isolate.step cache.pathFor id s (.call piece) = some t) : cache.Inv t := by
  obtain ⟨hobeys, left, stop, hstop, hseg, rfl⟩ :=
    Lib.Isolate.obeysOn_step follows_pathFor h.obeys hstep
  have hstate : left.2 = s.state := by
    generalize left.2 = u at hseg
    cases hseg
    rfl
  refine ⟨hobeys, mem_called_settle (fun task htask => List.mem_append_left _ (h.called task htask))
    (List.mem_append_right _ List.mem_cons_self), ?_, fun path hcached hexists => ?_,
    fun path hcached checksum hmem => ?_⟩
  · rw [Lib.Isolate.called_settle]
    intro p hp q hq hname
    obtain hold | hnew := List.mem_append.mp hp
    · obtain hold' | hnew' := List.mem_append.mp hq
      · exact h.names p hold q hold' hname
      · obtain rfl := List.mem_singleton.mp hnew'
        exact hundisturbed p hold hname
    · obtain rfl := List.mem_singleton.mp hnew
      obtain hold' | hnew' := List.mem_append.mp hq
      · exact (hundisturbed q hold' hname.symm).symm
      · obtain rfl := List.mem_singleton.mp hnew'
        rfl
  · rw [Lib.Isolate.state_settle, hstate] at hexists
    refine (h.right path hcached hexists).imp (fun hright => ?_) fun hloading => ?_
    · refine hright.of_get_eq ?_ (by rw [Lib.Isolate.state_settle, hstate])
      rw [Lib.Isolate.called_settle]
      exact List.subset_append_left _ _
    · exact mem_downloading_settle hstop (.inl hloading)
  · rw [Lib.Isolate.state_settle]
    generalize left.2 = u at hseg
    cases hseg
    obtain hold | ⟨hnew, -⟩ := mem_promises_settle hstop hmem
    · exact h.holds path hcached checksum hold
    · cases hnew

theorem Inv.resume {i : Nat} {reply : CacheReply} (h : cache.Inv s)
    (hundisturbed : cache.Undisturbed s (.calls (.resume i reply)))
    (hstep : Lib.Isolate.step cache.pathFor id s (.resume i reply) = some t) : cache.Inv t := by
  obtain ⟨hobeys, c, point, k, left, stop, hrunning, hstop, hseg, rfl⟩ :=
    Lib.Isolate.obeysOn_step follows_pathFor h.obeys hstep
  have hundisturbed := hundisturbed _ hrunning point rfl
  have hpiece := h.called _ (List.mem_of_getElem? hrunning)
  refine ⟨hobeys, mem_called_settle
    (fun task htask => h.called task (List.mem_of_mem_eraseIdx htask)) hpiece, ?_,
    fun path hcached hexists => ?_, fun path hcached checksum hmem => ?_⟩
  · rw [Lib.Isolate.called_settle]
    exact h.names
  · rw [Lib.Isolate.state_settle] at hexists
    have hsame := get_of_existsSync hseg hexists
    have hbefore : s.state.existsSync path = true := by rwa [CachedPdfs.existsSync, ← hsame]
    obtain hright | hloading := h.right path hcached hbefore
    · refine .inl (hright.of_get_eq ?_ (by rw [Lib.Isolate.state_settle, hsame]))
      rw [Lib.Isolate.called_settle]
      exact List.Subset.refl _
    · obtain hown | hother := List.mem_append.mp
        ((Lib.Isolate.collect_perm_eraseIdx hrunning _).mem_iff.mp hloading)
      · obtain ⟨hholds, rfl⟩ | hstill :=
          holds_or_downloading hundisturbed hseg (Option.mem_toList.mp hown) hcached hexists
        · refine .inl ⟨c, by rwa [Lib.Isolate.called_settle], rfl, ?_⟩
          rwa [Lib.Isolate.state_settle]
        · exact .inr (mem_downloading_settle hstop hstill)
      · exact .inr (mem_downloading_settle hstop (.inl hother))
  · rw [Lib.Isolate.state_settle]
    obtain hold | ⟨hnew, rfl⟩ := mem_promises_settle hstop hmem
    · have hmem := mem_promises_eraseIdx hold
      rw [Holds, get_of_segment hseg hundisturbed (List.ne_nil_of_mem hmem)]
      exact h.holds path hcached checksum hmem
    · exact holds_of_segment h (List.mem_of_getElem? hrunning) rfl hseg hundisturbed hnew hcached

/-- A download that is cut off has left nothing, or the whole file. -/
theorem Inv.kill (h : cache.Inv s) (hundisturbed : cache.Undisturbed s (.calls .kill)) :
    cache.Inv { s with running := [] } := by
  refine ⟨nofun, nofun, h.names, fun path hcached hexists => .inl ?_, nofun⟩
  obtain hright | hloading := h.right path hcached hexists
  · exact hright
  · obtain ⟨task, htask, hmem⟩ := List.mem_flatMap.mp hloading
    cases hpoint : task.rest.point? with
    | none => simp [hpoint] at hmem
    | some point =>
      rw [hpoint, Option.elim_some, Option.mem_toList] at hmem
      have hname : path = cache.cacheFile task.call.basePdfChecksum := by
        unfold downloading? at hmem
        split at hmem
        · exact (Option.some.inj hmem).symm
        · exact (Option.some.inj hmem).symm
        · split_ifs at hmem
          exact (Option.some.inj hmem).symm
        · cases hmem
      subst hname
      have hleaves := hundisturbed task htask
        (by rw [hpoint, Option.bind_some, Option.mem_def.mp hmem]; rfl)
      exact ⟨task.call, h.called task htask, rfl, hleaves hcached hexists⟩

/-- Every step that disturbs no call keeps the files right. -/
theorem inv_step {e : CacheEvent} (h : cache.Inv s) (hundisturbed : cache.Undisturbed s e)
    (hstep : cache.step s e = some t) : cache.Inv t := by
  unfold step at hstep
  split_ifs at hstep with henabled
  cases e with
  | calls e =>
    cases e with
    | call piece => exact h.call hundisturbed hstep
    | resume i reply => exact h.resume hundisturbed hstep
    | kill =>
      obtain rfl := Lib.Isolate.kill_step.mp hstep
      exact h.kill hundisturbed
  | write i bytes =>
    obtain ⟨task, htask, rfl⟩ := Option.map_eq_some_iff.mp hstep
    refine h.put (fun _ => ?_)
      fun _ checksum hmem => congrArg some (hundisturbed task htask checksum hmem)
    rw [enabled, htask, Option.bind_some] at henabled
    refine List.mem_flatMap.mpr ⟨task, List.mem_of_getElem? htask, ?_⟩
    split at henabled
    · next hpoint => simp [hpoint, downloading?]
    · cases henabled
  | device path content =>
    obtain rfl := Option.some.inj hstep
    have hnot : cache.isCached path ≠ true := by simpa [enabled] using henabled
    exact h.put (fun hcached => absurd hcached hnot) fun hcached => absurd hcached hnot

/-- A call that has been settled returns what it ended with. -/
theorem ends_of_mem_finished {r : PdfCaches} {left : CacheProgram String × CachedPdfs}
    {stop : Stop CacheAwait CacheError String} (hstop : left.1.stop? = some stop)
    {returned : Piece × Except CacheError String} {n : Nat}
    (h : returned ∈ (r.settle piece left).finished.drop n) (hn : r.finished.length = n) :
    returned.1 = piece ∧ stop = .ends returned.2 := by
  rw [Lib.Isolate.finished_settle, ← hn, List.drop_left] at h
  cases stop with
  | waits point =>
    rw [(point?_of_stop? hstop).2] at h
    cases h
  | ends outcome =>
    rw [(ended?_of_stop? hstop).2] at h
    obtain rfl := List.mem_singleton.mp h
    exact ⟨rfl, rfl⟩

/-- What a step returns had been promised. -/
theorem returnsSound_step {e : CacheEvent} (h : cache.Inv s) (hstep : cache.step s e = some t) :
    cache.ReturnsSound s t := by
  unfold step at hstep
  split_ifs at hstep with henabled
  rintro ⟨c, error | path⟩ hreturned path' hpath hcached
  · cases hpath
  obtain rfl := Option.some.inj hpath
  cases e with
  | calls e =>
    obtain ⟨-, hseg⟩ := Lib.Isolate.obeysOn_step follows_pathFor h.obeys hstep
    cases e with
    | call c =>
      obtain ⟨left, stop, hstop, hseg, rfl⟩ := hseg
      obtain ⟨-, rfl⟩ := ends_of_mem_finished hstop hreturned rfl
      cases hseg
    | resume i reply =>
      obtain ⟨c, point, k, left, stop, hrunning, hstop, hseg, rfl⟩ := hseg
      obtain ⟨rfl, rfl⟩ := ends_of_mem_finished hstop hreturned rfl
      rw [Lib.Isolate.state_settle]
      generalize left.2 = u at hseg ⊢
      cases hseg
      exact h.holds path hcached _
        (mem_promises.mpr ⟨_, List.mem_of_getElem? hrunning, rfl, rfl⟩)
    | kill =>
      obtain rfl := hseg
      simp at hreturned
  | write i bytes =>
    obtain ⟨task, htask, rfl⟩ := Option.map_eq_some_iff.mp hstep
    simp at hreturned
  | device path content =>
    obtain rfl := Option.some.inj hstep
    simp at hreturned

instance (s t : PdfCaches) : Decidable (cache.ReturnsSound s t) := by
  unfold ReturnsSound
  infer_instance

/-- In a run that disturbs no call, every path in the cache directory that is returned is that of a
file with the checksum of the piece. -/
theorem sound_of_undisturbed (cache : DefaultPdfBinaryCache) {es : List CacheEvent}
    (h : EachStep cache.step cache.Undisturbed (Lib.Isolate.start .fresh) es) :
    EachStep cache.step (fun s e => ∀ t ∈ cache.step s e, cache.ReturnsSound s t)
      (Lib.Isolate.start .fresh) es := by
  have hstart : cache.Inv (Lib.Isolate.start .fresh) := inv_fresh
  refine EachStep.of_invariant (fun s e hinv hundisturbed => ?_) hstart h
  exact ⟨fun t hstep => returnsSound_step hinv hstep, fun t hstep => inv_step hinv hundisturbed hstep⟩

/-! ## A download that fails -/

/-- A small cache; a checksum lists the bytes. -/
def smallCache : DefaultPdfBinaryCache := ⟨"/documents", 8, fun bytes => s!"sum:{bytes}"⟩

/-- A piece whose base PDF is three bytes. -/
def etude : Piece :=
  ⟨"etude", "Etude", "sum:[1, 2, 3]", "", "ann", none, [], .sinceEpoch 0, .sinceEpoch 0⟩

/-- A call goes on with what it awaits. -/
def goesOn (files : List String) : CacheEvent :=
  .calls (.resume 0 ⟨.ok (), ⟨1, by decide⟩, files⟩)

/-- The download breaks off after two bytes; then the piece is opened once more. -/
def brokenOff : List CacheEvent :=
  [.calls (.call etude), goesOn [], .write 0 [1, 2],
    .calls (.resume 0 ⟨.error "unavailable", ⟨1, by decide⟩, []⟩), goesOn [], goesOn [],
    .calls (.call etude), goesOn [], goesOn [], goesOn []]

/-- The download goes through; then the piece is opened once more. -/
def redownloaded : List CacheEvent :=
  [.calls (.call etude), goesOn [], .write 0 [1, 2], .write 0 [1, 2, 3], goesOn [], goesOn [],
    goesOn [], goesOn [], goesOn [], goesOn ["/documents/pieces_cache/sum:[1, 2, 3].pdf"],
    goesOn [], goesOn [], .calls (.call etude), goesOn [], goesOn [], goesOn []]

theorem sound_of_undisturbed_redownloaded :
    EachStep smallCache.step (fun s e => ∀ t ∈ smallCache.step s e, smallCache.ReturnsSound s t)
      (Lib.Isolate.start .fresh) redownloaded :=
  smallCache.sound_of_undisturbed (by decide +kernel)

/-- The partial file is returned. -/
theorem not_sound :
    (run smallCache.step (Lib.Isolate.start .fresh) brokenOff).map (·.finished.length) = some 2 ∧
    ¬EachStep smallCache.step (fun s e => ∀ t ∈ smallCache.step s e, smallCache.ReturnsSound s t)
      (Lib.Isolate.start .fresh) brokenOff := by
  decide +kernel

end DefaultPdfBinaryCache

end Duet
