import Duet.Device.PdfCache
import Duet.Lib.Transition
import Mathlib.Algebra.BigOperators.Group.List.Basic
import Mathlib.Algebra.Order.Group.Int
import Mathlib.Data.List.Nodup

/-!
# The files that are evicted

An eviction lists the cache directory and deletes the files that were opened longest ago, one after
another, while the rest is over the cap. A file that the preferences do not know counts as opened at
the epoch.

## Main results

* `evicts_evictIfOverCap` — what an eviction deletes, and what it leaves.
* `not_mem_evicted` — the file opened last is not evicted if it fits.
* `evictsOldest` — evictions, and the file that a call has downloaded and touched.
-/

namespace Duet

open Lib Async

/-! ## Sizes -/

namespace CachedPdfs

variable {s : CachedPdfs} {path : String} {paths listing : List String}

@[simp] theorem totalLength_nil : s.totalLength [] = 0 := rfl

@[simp] theorem totalLength_cons :
    s.totalLength (path :: paths) = s.lengthSync path + s.totalLength paths := by
  simp [totalLength]

@[simp] theorem totalLength_append (before after : List String) :
    s.totalLength (before ++ after) = s.totalLength before + s.totalLength after := by
  simp [totalLength]

theorem totalLength_perm (h : paths.Perm listing) :
    s.totalLength paths = s.totalLength listing := by
  rw [totalLength, totalLength, (h.map s.lengthSync).sum_eq]

theorem totalLength_congr {t : CachedPdfs}
    (h : ∀ path ∈ paths, t.lengthSync path = s.lengthSync path) :
    t.totalLength paths = s.totalLength paths := by
  rw [totalLength, totalLength, List.map_congr_left h]

theorem get_files_evict :
    (s.evict paths).files.get path = if path ∈ paths then none else s.files.get path :=
  Assoc.get_foldl_erase _ _ _

theorem lengthSync_evict :
    (s.evict paths).lengthSync path = if path ∈ paths then 0 else s.lengthSync path := by
  rw [lengthSync, lengthSync, get_files_evict]
  split_ifs <;> rfl

/-- What is left of a directory once some of its files are deleted. -/
theorem totalLength_evict {kept : List String} (hperm : (paths ++ kept).Perm listing)
    (hnodup : listing.Nodup) : (s.evict paths).totalLength listing = s.totalLength kept := by
  have hdeleted : (s.evict paths).totalLength paths = (s.evict paths).totalLength [] := by
    have hzero : (paths.map (s.evict paths).lengthSync).sum = 0 := by
      apply List.sum_eq_zero
      intro n hn
      obtain ⟨path, hpath, rfl⟩ := List.mem_map.mp hn
      rw [lengthSync_evict, if_pos hpath]
    rw [totalLength, hzero]
    rfl
  have hkept : (s.evict paths).totalLength kept = s.totalLength kept := by
    apply totalLength_congr
    intro path hpath
    have hdisjoint := List.disjoint_of_nodup_append (hperm.nodup_iff.mpr hnodup)
    rw [lengthSync_evict, if_neg fun hmem => hdisjoint hmem hpath]
  rw [← totalLength_perm hperm, totalLength_append, hdeleted, hkept, totalLength_nil, zero_add]

end CachedPdfs

/-! ## What an eviction deletes -/

namespace DefaultPdfBinaryCache

variable {cache : DefaultPdfBinaryCache} {s t : CachedPdfs} {path : String}
  {listing deleted : List String}

/-- The files that are deleted are the first of the list; before each of them the rest is over the
cap, and after them it is not, if there is a rest. -/
theorem overCap_spec (cache : DefaultPdfBinaryCache) (s : CachedPdfs) (paths : List String)
    (total : Int) : ∃ kept, cache.overCap s paths total ++ kept = paths ∧
      (∀ before path after, cache.overCap s paths total = before ++ path :: after →
        cache.maxCacheBytes < total - s.totalLength before) ∧
      (total - s.totalLength (cache.overCap s paths total) ≤ cache.maxCacheBytes ∨ kept = []) := by
  induction paths generalizing total with
  | nil => exact ⟨[], rfl, by simp [overCap], .inr rfl⟩
  | cons path rest ih =>
    by_cases hcap : total ≤ cache.maxCacheBytes
    · rw [overCap, if_pos hcap]
      exact ⟨path :: rest, rfl, by simp, .inl (by simpa using hcap)⟩
    · obtain ⟨kept, hkept, hover, hend⟩ := ih (total - s.lengthSync path)
      rw [overCap, if_neg hcap]
      refine ⟨kept, by rw [List.cons_append, hkept], ?_, ?_⟩
      · intro before path' after hsplit
        cases before with
        | nil => simpa using hcap
        | cons path'' before =>
          rw [List.cons_append] at hsplit
          obtain ⟨rfl, hrest⟩ := List.cons.inj hsplit
          have hbefore := hover before path' after hrest
          rw [CachedPdfs.totalLength_cons]
          omega
      · refine hend.imp_left fun hend => ?_
        rw [CachedPdfs.totalLength_cons]
        omega

/-- A directory that is listed as `listing` loses the files `deleted`. -/
structure Evicts (cache : DefaultPdfBinaryCache) (s : CachedPdfs) (listing deleted : List String)
    (t : CachedPdfs) : Prop where
  onlyOverCap : s.totalLength listing ≤ cache.maxCacheBytes → deleted = []
  oldestFirst : ∃ opened, opened.Perm listing ∧
    opened.Pairwise (fun p q => s.lastOpened p ≤ s.lastOpened q) ∧ deleted <+: opened
  noLonger : ∀ before path after, deleted = before ++ path :: after →
    cache.maxCacheBytes < s.totalLength listing - s.totalLength before
  inCap : t.totalLength listing ≤ cache.maxCacheBytes
  files : ∀ path, t.files.get path = if path ∈ deleted then none else s.files.get path
  lru : ∀ checksum, t.lru.get checksum =
    if checksum ∈ deleted.map Path.basenameWithoutExtension then none else s.lru.get checksum

/-- The files in the order in which they were last opened. -/
theorem pairwise_lastOpened (s : CachedPdfs) (listing : List String) :
    (listing.mergeSort fun p q => s.lastOpened p ≤ s.lastOpened q).Pairwise
      fun p q => s.lastOpened p ≤ s.lastOpened q := by
  let earlier : String → String → Bool := fun p q => s.lastOpened p ≤ s.lastOpened q
  have htrans : ∀ p q r, earlier p q → earlier q r → earlier p r := by
    simpa [earlier] using fun p q r => le_trans
  have htotal : ∀ p q, earlier p q || earlier q p := by
    simpa [earlier] using fun p q => le_total _ _
  simpa [earlier] using List.pairwise_mergeSort htrans htotal listing

/-- Deleting what is evicted leaves the directory in its cap. -/
theorem evicts_evict (hcap : 0 ≤ cache.maxCacheBytes) (hnodup : listing.Nodup)
    (hover : cache.maxCacheBytes < s.totalLength listing) :
    cache.Evicts s listing (cache.evicted s listing) (s.evict (cache.evicted s listing)) := by
  have hperm := List.mergeSort_perm listing fun p q => s.lastOpened p ≤ s.lastOpened q
  obtain ⟨kept, hkept, hnoLonger, hend⟩ := cache.overCap_spec s
    (listing.mergeSort fun p q => s.lastOpened p ≤ s.lastOpened q) (s.totalLength listing)
  have hpermKept : (cache.evicted s listing ++ kept).Perm listing := by
    rw [evicted, hkept]
    exact hperm
  refine ⟨fun hin => absurd hin (by omega), ⟨_, hperm, pairwise_lastOpened s listing, kept, hkept⟩,
    hnoLonger, ?_, fun path => CachedPdfs.get_files_evict, fun checksum => ?_⟩
  · have htotal := CachedPdfs.totalLength_perm (s := s) hpermKept
    rw [CachedPdfs.totalLength_append] at htotal
    rw [CachedPdfs.totalLength_evict hpermKept hnodup]
    rcases hend with hend | rfl
    · rw [evicted] at htotal
      omega
    · exact hcap
  · exact Assoc.get_foldl_erase _ _ _

/-- An eviction that finds no more than the cap deletes nothing. -/
theorem evicts_nil (hin : s.totalLength listing ≤ cache.maxCacheBytes) :
    cache.Evicts s listing [] s := by
  refine ⟨fun _ => rfl, ⟨_, List.mergeSort_perm listing _, pairwise_lastOpened s listing,
    List.nil_prefix⟩, by simp, hin, by simp, by simp⟩

theorem alone_evictIfOverCap (cache : DefaultPdfBinaryCache) (s : CachedPdfs) (reply : CacheReply) :
    (cache.evictIfOverCap.alone reply s).2 =
      if reply.result = .ok () ∧ s.hasCacheDir = true ∧
        cache.maxCacheBytes < s.totalLength reply.listing then
        s.evict (cache.evicted s reply.listing)
      else s := by
  obtain ⟨result, now, listing⟩ := reply
  cases result with
  | error error => rfl
  | ok _ =>
    change ((if !s.hasCacheDir then done ()
      else if s.totalLength listing ≤ cache.maxCacheBytes then done ()
      else do
        modify fun s => s.evict (cache.evicted s listing)
        let reply ← suspend .persistLru
        ofExcept reply.outcome : CacheProgram Unit).alone ⟨.ok (), now, listing⟩ s).2 = _
    cases hdir : s.hasCacheDir with
    | false => simp
    | true =>
      by_cases hcap : s.totalLength listing ≤ cache.maxCacheBytes
      · simp [hcap]
      · rw [if_neg (by simp), if_neg hcap, if_pos ⟨rfl, rfl, by simpa using hcap⟩]
        rfl

/-- What `_evictIfOverCap` does; a directory that is not there has no files. -/
theorem evicts_evictIfOverCap (hcap : 0 ≤ cache.maxCacheBytes) {reply : CacheReply}
    (hok : reply.result = .ok ()) (hnodup : reply.listing.Nodup)
    (hdir : s.hasCacheDir = false → reply.listing = []) :
    ∃ deleted, cache.Evicts s reply.listing deleted (cache.evictIfOverCap.alone reply s).2 := by
  rw [alone_evictIfOverCap]
  split_ifs with hover
  · exact ⟨_, evicts_evict hcap hnodup hover.2.2⟩
  · refine ⟨[], evicts_nil ?_⟩
    cases hexists : s.hasCacheDir with
    | false => rw [hdir hexists, CachedPdfs.totalLength_nil]; exact hcap
    | true => simpa [hok, hexists] using hover

/-! ## The file opened last -/

/-- A file that is opened after all others is not evicted if it fits alone. -/
theorem not_mem_evicted (hnodup : listing.Nodup)
    (hfits : (s.lengthSync path : Int) ≤ cache.maxCacheBytes)
    (hlast : ∀ other ∈ listing, other ≠ path → s.lastOpened other < s.lastOpened path) :
    path ∉ cache.evicted s listing := by
  intro hmem
  obtain ⟨before, after, hsplit⟩ := List.append_of_mem hmem
  have hperm := List.mergeSort_perm listing fun p q => s.lastOpened p ≤ s.lastOpened q
  have hopened := pairwise_lastOpened s listing
  obtain ⟨kept, hkept, hnoLonger, -⟩ := cache.overCap_spec s
    (listing.mergeSort fun p q => s.lastOpened p ≤ s.lastOpened q) (s.totalLength listing)
  rw [evicted] at hsplit
  rw [← hkept, hsplit, List.append_assoc, List.cons_append] at hperm hopened
  -- nothing stands after the file: it would have been opened later
  have hnone : after ++ kept = [] := by
    rw [List.eq_nil_iff_forall_not_mem]
    intro other hother
    have hlater := List.rel_of_pairwise_cons (List.pairwise_append.mp hopened).2.1 hother
    have hfresh := (List.nodup_cons.mp (List.nodup_append.mp (hperm.nodup_iff.mpr hnodup)).2.1).1
    have hlisted := hperm.mem_iff.mp (List.mem_append_right _ (List.mem_cons_of_mem _ hother))
    have hearlier := hlast other hlisted (by rintro rfl; exact hfresh hother)
    omega
  have htotal := CachedPdfs.totalLength_perm (s := s) hperm
  rw [hnone, CachedPdfs.totalLength_append, CachedPdfs.totalLength_cons,
    CachedPdfs.totalLength_nil] at htotal
  have hover := hnoLonger before path after hsplit
  omega

/-- A hexadecimal digest, of which only this matters: it names a file. -/
def IsDigest (checksum : String) : Prop :=
  checksum ≠ "" ∧ '/' ∉ checksum.toList ∧ '.' ∉ checksum.toList

theorem toList_pdf : ".pdf".toList = ['.', 'p', 'd', 'f'] := by decide

theorem suffix_cacheFile (cache : DefaultPdfBinaryCache) (checksum : String) :
    ".pdf".toList <:+ (cache.cacheFile checksum).toList := by
  refine List.IsSuffix.trans ?_ (Path.suffix_join _ _)
  rw [String.toList_append]
  exact List.suffix_append _ _

theorem toList_cacheFile {checksum : String} (h : IsDigest checksum) :
    (cache.cacheFile checksum).toList =
      cache.cacheDir.toList ++ '/' :: (checksum.toList ++ ".pdf".toList) := by
  have hlast : cache.cacheDir.toList.getLast? = some 'e' := by
    obtain ⟨front, hfront⟩ := Path.suffix_join cache.documentsDirectory "pieces_cache"
    rw [cacheDir, ← hfront, List.getLast?_append]
    rfl
  have hhead : (checksum ++ ".pdf").toList.head? ≠ some '/' := by
    rw [String.toList_append, List.head?_append]
    cases hchars : checksum.toList with
    | nil => simp
    | cons c rest => grind [IsDigest]
  have hdir : cache.cacheDir ≠ "" := by
    intro hempty
    simp [hempty] at hlast
  rw [cacheFile, Path.toList_join hhead hdir (by simp [hlast]), String.toList_append]

/-- A cached file is named by its checksum. -/
theorem eq_cacheFile_of_basename {checksum : String} (h : IsDigest checksum)
    (hentry : Path.isEntryOf cache.cacheDir path = true) (hpdf : ".pdf".toList <:+ path.toList)
    (hname : Path.basenameWithoutExtension path = checksum) : path = cache.cacheFile checksum := by
  obtain ⟨base, hpath, hslash⟩ := Path.isEntryOf_iff.mp hentry
  obtain ⟨name, rfl⟩ : ∃ name, base = name ++ ['.', 'p', 'd', 'f'] := by
    obtain ⟨front, hfront⟩ := hpdf
    rw [hpath, toList_pdf] at hfront
    rcases List.append_eq_append_iff.mp hfront with ⟨rest, -, hrest⟩ | ⟨rest, -, hrest⟩
    · have hmem : '/' ∈ ['.', 'p', 'd', 'f'] := hrest ▸ by simp
      simp at hmem
    · cases rest with
      | nil => simp at hrest
      | cons c name => exact ⟨name, (List.cons.inj hrest).2⟩
  have hstem := Path.basenameWithoutExtension_of_toList hpath hslash (by simp) (by simp)
  rw [hname] at hstem
  split_ifs at hstem with hnil
  · exact absurd (hstem ▸ List.mem_cons_self) h.2.2
  · rw [← String.toList_inj, toList_cacheFile h, hpath, hstem, toList_pdf]

theorem basenameWithoutExtension_cacheFile {checksum : String} (h : IsDigest checksum) :
    Path.basenameWithoutExtension (cache.cacheFile checksum) = checksum := by
  have hpath : (cache.cacheFile checksum).toList = _ := toList_cacheFile h
  rw [toList_pdf] at hpath
  have hstem := Path.basenameWithoutExtension_of_toList hpath (by simp [h.2.1]) (by simp) (by simp)
  rw [if_neg (by simpa using h.1)] at hstem
  exact String.toList_inj.mp hstem

/-! ## The file that a call has touched -/

/-- The cache directory may be listed as `listing`. -/
def Lists (cache : DefaultPdfBinaryCache) (s : CachedPdfs) (listing : List String) : Prop :=
  listing.Nodup ∧ listing.Perm ((s.files.map Prod.fst).filter (Path.isEntryOf cache.cacheDir))

/-- Every file in the cache directory has the name of a cached one, and everything was opened before
`now`. -/
structure Dated (cache : DefaultPdfBinaryCache) (now : Int) (s : CachedPdfs) : Prop where
  named : ∀ path ∈ s.files.map Prod.fst, Path.isEntryOf cache.cacheDir path = true →
    ".pdf".toList <:+ path.toList
  opened : ∀ entry ∈ s.lru, entry.2 < now

/-- The file that is touched is opened after all others. -/
theorem Dated.not_mem_evicted {checksum : String} {now : DateTime}
    (h : cache.Dated now.micros s) (hnow : 0 < now.micros) (hdigest : IsDigest checksum)
    (hlists : cache.Lists s listing)
    (hfits : (s.lengthSync (cache.cacheFile checksum) : Int) ≤ cache.maxCacheBytes) :
    cache.cacheFile checksum ∉ cache.evicted (s.touched checksum now) listing := by
  refine DefaultPdfBinaryCache.not_mem_evicted hlists.1 hfits fun other hother hne => ?_
  obtain ⟨hstored, hentry⟩ := List.mem_filter.mp (hlists.2.mem_iff.mp hother)
  have hname : Path.basenameWithoutExtension other ≠ checksum :=
    fun hname => hne (eq_cacheFile_of_basename hdigest hentry (h.named other hstored hentry) hname)
  have htouched : (s.touched checksum now).lastOpened (cache.cacheFile checksum) = now.micros := by
    rw [CachedPdfs.lastOpened, basenameWithoutExtension_cacheFile hdigest, CachedPdfs.touched,
      Assoc.get_set_self, Option.getD_some]
  rw [htouched, CachedPdfs.lastOpened, CachedPdfs.touched, Assoc.get_set_of_ne _ hname]
  cases hget : s.lru.get (Path.basenameWithoutExtension other) with
  | none => exact hnow
  | some opened => exact h.opened _ (Assoc.mem_of_get hget)

/-- A call that has downloaded the file touches it and evicts. -/
theorem alone_cacheVerified (cache : DefaultPdfBinaryCache) (s : CachedPdfs) (piece : Piece)
    (reply : CacheReply) : ((cache.cacheVerified piece (.ok ())).alone reply s).2 =
      (cache.evictIfOverCap.alone reply (s.touched piece.basePdfChecksum reply.now)).2 := by
  obtain ⟨result, now, listing⟩ := reply
  cases result with
  | error error => rfl
  | ok _ =>
    change ((attempt cache.evictIfOverCap >>= fun evicted => do
      let _ ← suspend (.evictIfOverCap evicted)
      ofExcept evicted
      done (cache.cacheFile piece.basePdfChecksum) : CacheProgram String).alone
        ⟨.ok (), now, listing⟩ (s.touched piece.basePdfChecksum now)).2 = _
    rw [alone_bind, alone_attempt]
    dsimp only
    cases (cache.evictIfOverCap.alone ⟨.ok (), now, listing⟩
      (s.touched piece.basePdfChecksum now)).1 <;> rfl

/-- The call that has downloaded the file leaves it there. -/
theorem Dated.get_cacheVerified {piece : Piece} {reply : CacheReply}
    (h : cache.Dated reply.now.micros s) (hnow : 0 < reply.now.micros)
    (hdigest : IsDigest piece.basePdfChecksum) (hlists : cache.Lists s reply.listing)
    (hfits : (s.lengthSync (cache.cacheFile piece.basePdfChecksum) : Int) ≤ cache.maxCacheBytes) :
    ((cache.cacheVerified piece (.ok ())).alone reply s).2.files.get
      (cache.cacheFile piece.basePdfChecksum) =
        s.files.get (cache.cacheFile piece.basePdfChecksum) := by
  rw [alone_cacheVerified, alone_evictIfOverCap]
  split_ifs
  · rw [CachedPdfs.get_files_evict, if_neg (h.not_mem_evicted hnow hdigest hlists hfits)]
    rfl
  · rfl

/-! ## Runs -/

/-- What the clock reads when a call goes on. -/
def reading? : CacheEvent → Option Int
  | .calls (.resume _ reply) => some reply.now.micros
  | _ => none

theorem Dated.put {now : Int} (h : cache.Dated now s) {content : Option (List UInt8)}
    (hpath : Path.isEntryOf cache.cacheDir path = true → ".pdf".toList <:+ path.toList) :
    cache.Dated now (s.put path content) := by
  cases content with
  | none =>
    refine ⟨fun other hother => h.named other ?_, h.opened⟩
    exact (List.filter_sublist.map _).subset hother
  | some bytes =>
    refine ⟨fun other hother hentry => ?_, h.opened⟩
    obtain rfl | hold := Assoc.mem_keys_set hother
    · exact hpath hentry
    · exact h.named other hold hentry

theorem Dated.touched {checksum : String} {now : Int} {opened : DateTime} (h : cache.Dated now s)
    (hopened : opened.micros < now) : cache.Dated now (s.touched checksum opened) := by
  refine ⟨h.named, fun entry hentry => ?_⟩
  obtain rfl | hold := Assoc.eq_or_mem_of_mem_set hentry
  · exact hopened
  · exact h.opened entry hold

theorem subset_foldl_erase {κ β : Type} [DecidableEq κ] (ks : List κ) (m : Assoc κ β) :
    ks.foldl Assoc.erase m ⊆ m := by
  induction ks generalizing m with
  | nil => exact List.Subset.refl _
  | cons k ks ih => exact fun e he => List.filter_sublist.subset (ih _ he)

theorem Dated.evict {now : Int} (h : cache.Dated now s) (paths : List String) :
    cache.Dated now (s.evict paths) := by
  refine ⟨fun path hpath => h.named path ?_, fun entry hentry => h.opened entry ?_⟩
  · exact List.map_subset _ (subset_foldl_erase _ _) hpath
  · exact subset_foldl_erase _ _ hentry

theorem Dated.segment {piece : Piece} {from? : Option (CacheAwait × CacheReply)}
    {stop : Stop CacheAwait CacheError String} {now : Int} (h : cache.Dated now s)
    (hnow : ∀ point reply, from? = some (point, reply) → reply.now.micros < now)
    (hseg : CacheSegment cache piece from? s stop t) : cache.Dated now t := by
  cases hseg with
  | hit _ reply | cached _ reply => exact h.touched (hnow _ _ rfl)
  | mismatch =>
    have hdeleted : cache.Dated now (s.put (cache.cacheFile piece.basePdfChecksum) none) :=
      h.put fun _ => suffix_cacheFile cache _
    exact hdeleted
  | evict => exact h.evict _
  | miss => exact ⟨h.named, h.opened⟩
  | _ => exact h

/-- Cached files keep their names, and nothing is opened later than it was. -/
theorem dated_step {now : Int} {r u : PdfCaches} {e : CacheEvent}
    (h : r.ObeysOn (CacheSegment cache) ∧ cache.Dated now r.state)
    (hnow : ∀ moment ∈ reading? e, moment < now) (hstep : cache.step r e = some u) :
    u.ObeysOn (CacheSegment cache) ∧ cache.Dated now u.state := by
  obtain ⟨hobeys, hdated⟩ := h
  unfold step at hstep
  split_ifs at hstep with henabled
  cases e with
  | calls e =>
    cases e with
    | call piece =>
      obtain ⟨hobeys, stop, hseg, -⟩ := Lib.Isolate.obeysOn_call follows_pathFor hobeys hstep
      exact ⟨hobeys, hdated.segment (by simp) hseg⟩
    | resume i reply =>
      obtain ⟨hobeys, piece, point, k, stop, -, hseg, -⟩ :=
        Lib.Isolate.obeysOn_resume follows_pathFor hobeys hstep
      refine ⟨hobeys, hdated.segment ?_ hseg⟩
      rintro _ _ ⟨⟩
      exact hnow _ rfl
    | kill =>
      obtain rfl := Lib.Isolate.kill_step.mp hstep
      exact ⟨by simp [Lib.Isolate.ObeysOn], hdated⟩
  | write i bytes =>
    obtain ⟨task, htask, rfl⟩ := Option.map_eq_some_iff.mp hstep
    have hwritten : cache.Dated now
        (r.state.put (cache.cacheFile task.call.basePdfChecksum) (some bytes)) :=
      hdated.put fun _ => suffix_cacheFile cache _
    exact ⟨hobeys, hwritten⟩
  | device path content =>
    obtain rfl := Option.some.inj hstep
    refine ⟨hobeys, hdated.put fun hentry => ?_⟩
    simp only [enabled, isCached, Bool.not_eq_true'] at henabled
    simp [Path.isEntryOf, henabled] at hentry

/-- In every run that starts at `start`, under a clock that reads later and later: a call that has
downloaded a file that fits, and goes on alone, leaves it there. -/
def SparesDownloaded (cache : DefaultPdfBinaryCache) (start : Int) : Prop :=
  ∀ (s₀ : CachedPdfs) (events : List CacheEvent) (s : PdfCaches) (piece : Piece)
    (reply : CacheReply),
    (∀ path ∈ s₀.files.map Prod.fst, Path.isEntryOf cache.cacheDir path = true →
      ".pdf".toList <:+ path.toList) →
    (∀ entry ∈ s₀.lru, entry.2 ≤ start) →
    (start :: events.filterMap reading? ++ [reply.now.micros]).Pairwise (· < ·) →
    run cache.step (Lib.Isolate.start s₀) events = some s →
    cache.Lists s.state reply.listing →
    cache.Holds s.state (cache.cacheFile piece.basePdfChecksum) piece.basePdfChecksum →
    (s.state.lengthSync (cache.cacheFile piece.basePdfChecksum) : Int) ≤ cache.maxCacheBytes →
    ((cache.cacheVerified piece (.ok ())).alone reply s.state).2.files.get
      (cache.cacheFile piece.basePdfChecksum) =
        s.state.files.get (cache.cacheFile piece.basePdfChecksum)

theorem sparesDownloaded {start : Int} (hsha : ∀ bytes, IsDigest (cache.sha256 bytes))
    (hstart : 0 ≤ start) : cache.SparesDownloaded start := by
  intro s₀ events s piece reply hnamed hopened hticks hrun hlists hholds hfits
  have hdigest : IsDigest piece.basePdfChecksum := by
    obtain ⟨bytes, -, hsum⟩ := Option.map_eq_some_iff.mp hholds
    exact hsum ▸ hsha bytes
  obtain ⟨-, -, hlast⟩ := List.pairwise_append.mp hticks
  have hlast : ∀ moment ∈ start :: events.filterMap reading?, moment < reply.now.micros :=
    fun moment hmoment => hlast moment hmoment _ (List.mem_singleton_self _)
  have hnow := hlast start List.mem_cons_self
  have hbefore : EachStep cache.step (fun _ e => ∀ moment ∈ reading? e, moment < reply.now.micros)
      (Lib.Isolate.start s₀) events := by
    refine EachStep.of_forall fun e he _ moment hmoment => hlast moment ?_
    exact List.mem_cons_of_mem _ (List.mem_filterMap.mpr ⟨e, he, hmoment⟩)
  have hinit : (Lib.Isolate.start s₀ : PdfCaches).ObeysOn (CacheSegment cache) ∧
      cache.Dated reply.now.micros s₀ :=
    ⟨by simp [Lib.Isolate.ObeysOn, Lib.Isolate.start], hnamed,
      fun entry hentry => (hopened entry hentry).trans_lt hnow⟩
  have hdated : s.ObeysOn (CacheSegment cache) ∧ cache.Dated reply.now.micros s.state :=
    run_invariant (fun _ _ _ hs hmoment hstep => dated_step hs hmoment hstep) hinit hbefore hrun
  exact hdated.2.get_cacheVerified (by omega) hdigest hlists hfits

/-- An eviction deletes the files that were opened longest ago, no more of them than it has to, and
forgets what it has deleted; under a clock that is past the epoch, a call spares the file that it
has just downloaded. -/
theorem evictsOldest (cache : DefaultPdfBinaryCache) (hcap : 0 ≤ cache.maxCacheBytes)
    (hsha : ∀ bytes, IsDigest (cache.sha256 bytes)) :
    (∀ (s : CachedPdfs) (reply : CacheReply), reply.result = .ok () → reply.listing.Nodup →
      (s.hasCacheDir = false → reply.listing = []) →
      ∃ deleted, cache.Evicts s reply.listing deleted (cache.evictIfOverCap.alone reply s).2) ∧
    ∀ start, 0 ≤ start → cache.SparesDownloaded start :=
  ⟨fun _ _ hok hnodup hdir => evicts_evictIfOverCap hcap hok hnodup hdir,
    fun _ hstart => sparesDownloaded hsha hstart⟩

/-- A cache of eight bytes; a digest tells the zeros from the other bytes. -/
def digestCache : DefaultPdfBinaryCache :=
  ⟨"/documents", 8, fun bytes =>
    .ofList ('s' :: bytes.map fun byte => if byte = 0 then '0' else '1')⟩

theorem isDigest_digestCache (bytes : List UInt8) : IsDigest (digestCache.sha256 bytes) := by
  refine ⟨?_, ?_, ?_⟩ <;> simp [digestCache] <;> grind

/-- Five zeros whose opening is not known, and five ones. -/
def twoCached : CachedPdfs :=
  ⟨[("/documents/pieces_cache/s00000.pdf", [0, 0, 0, 0, 0]),
    ("/documents/pieces_cache/s11111.pdf", [1, 1, 1, 1, 1])], true, []⟩

def twoListed (now : DateTime) : CacheReply :=
  ⟨.ok (), now, ["/documents/pieces_cache/s11111.pdf", "/documents/pieces_cache/s00000.pdf"]⟩

def ones : Piece :=
  ⟨"ones", "Ones", "s11111", "", "ann", none, [], ⟨0, by decide⟩, ⟨0, by decide⟩⟩

/-- What is evicted of the two files, and the ones that stay after they have been downloaded. -/
theorem evictsOldest_twoCached :
    (∃ deleted, digestCache.Evicts twoCached (twoListed ⟨1, by decide⟩).listing deleted
      (digestCache.evictIfOverCap.alone (twoListed ⟨1, by decide⟩) twoCached).2) ∧
    Assoc.get ((digestCache.cacheVerified ones (.ok ())).alone (twoListed ⟨1, by decide⟩)
      twoCached).2.files (digestCache.cacheFile "s11111") =
        twoCached.files.get (digestCache.cacheFile "s11111") := by
  have hcap : 0 ≤ digestCache.maxCacheBytes := by decide
  refine ⟨(evictsOldest digestCache hcap isDigest_digestCache).1 _ _ rfl (by decide) nofun, ?_⟩
  refine (evictsOldest digestCache hcap isDigest_digestCache).2 0 le_rfl twoCached []
    (Lib.Isolate.start twoCached) ones (twoListed ⟨1, by decide⟩) (by decide +kernel) nofun
    (by decide) rfl ⟨by decide, by decide +kernel⟩ (by decide +kernel) (by decide +kernel)

/-- A clock that reads the epoch: the file that has just been downloaded was opened no later than
one of which nothing is known. -/
theorem not_sparesDownloaded :
    ¬∀ cache : DefaultPdfBinaryCache, 0 ≤ cache.maxCacheBytes →
      (∀ bytes, IsDigest (cache.sha256 bytes)) → ∀ start, cache.SparesDownloaded start := by
  intro h
  have hspares := h digestCache (by decide) isDigest_digestCache (-1) twoCached []
    (Lib.Isolate.start twoCached) ones (twoListed ⟨0, by decide⟩) (by decide +kernel) nofun
    (by decide) rfl ⟨by decide, by decide +kernel⟩ (by decide +kernel) (by decide +kernel)
  rw [alone_cacheVerified, alone_evictIfOverCap, if_pos (by decide +kernel),
    CachedPdfs.get_files_evict, evicted, List.mergeSort_of_pairwise (by decide +kernel)] at hspares
  exact absurd hspares (by decide +kernel)

end DefaultPdfBinaryCache

end Duet
