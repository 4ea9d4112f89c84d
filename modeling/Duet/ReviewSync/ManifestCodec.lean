import Duet.ReviewSync.Export
import Duet.ReviewSync.Import

/-!
# The interchange format

A manifest is read back up to the asset ids of its notes and the precision of their times. What has
been read once is read back as it is, and what an export writes names a file for each live note.

## Main results

* `transported_of_fromJson` — a decoded manifest carries nothing that does not travel.
* `ReviewManifest.codec` — the round trips, and the files of an export.
-/

namespace Duet

open Lib Effect

/-! ## What has been read -/

theorem transported_of_instantFromMillis {millis : Option Int} {t : Option DateTime}
    (h : instantFromMillis millis = some t) : t.map DateTime.toMillisecondPrecision = t := by
  cases millis with
  | none =>
    obtain rfl := Option.some.inj h
    rfl
  | some millis =>
    obtain ⟨instant, hinstant, rfl⟩ := Option.map_eq_some_iff.mp h
    exact congrArg some (toMillisecondPrecision_fromMillisecondsSinceEpoch hinstant)

theorem transported_of_audioEntryFromJson {json : Value} {entry : ManifestAudioEntry}
    (h : audioEntryFromJson json = some entry) : entry.transported = entry := by
  simp only [audioEntryFromJson, Option.bind_eq_bind, Option.bind_eq_some_iff, Option.pure_def,
    Option.some.injEq] at h
  obtain ⟨fields, -, deletedAtMillis, -, id, -, authorId, -, pageIndex, -, durationMs, -, region, -,
    createdAtMillis, -, createdAt, hcreated, deletedAt, hdeleted, audioFile, -, rfl⟩ := h
  have hcreatedAt := toMillisecondPrecision_fromMillisecondsSinceEpoch hcreated
  have hdeletedAt := transported_of_instantFromMillis hdeleted
  simp [ManifestAudioEntry.transported, AudioNote.transported, hcreatedAt, hdeletedAt]

/-- A decoded manifest has lost all that a bundle does not carry. -/
theorem transported_of_fromJson {json : Value} {manifest : ReviewManifest}
    (h : ReviewManifest.fromJson json = some manifest) : manifest.transported = manifest := by
  obtain ⟨fields, -, h⟩ := Option.bind_eq_some_iff.mp h
  obtain ⟨basePdf, -, h⟩ := Option.bind_eq_some_iff.mp h
  obtain ⟨version, -, h⟩ := Option.bind_eq_some_iff.mp h
  obtain ⟨pieceId, -, h⟩ := Option.bind_eq_some_iff.mp h
  obtain ⟨pieceTitle, -, h⟩ := Option.bind_eq_some_iff.mp h
  obtain ⟨authorId, -, h⟩ := Option.bind_eq_some_iff.mp h
  obtain ⟨authorName, -, h⟩ := Option.bind_eq_some_iff.mp h
  obtain ⟨exportedAtMillis, -, h⟩ := Option.bind_eq_some_iff.mp h
  obtain ⟨checksum, -, h⟩ := Option.bind_eq_some_iff.mp h
  obtain ⟨filename, -, h⟩ := Option.bind_eq_some_iff.mp h
  obtain ⟨rawStrokes, -, h⟩ := Option.bind_eq_some_iff.mp h
  obtain ⟨strokes, -, h⟩ := Option.bind_eq_some_iff.mp h
  obtain ⟨rawEntries, -, h⟩ := Option.bind_eq_some_iff.mp h
  obtain ⟨entries, hentries, h⟩ := Option.bind_eq_some_iff.mp h
  obtain rfl := Option.some.inj h
  have hfixed : entries.map (·.transported) = entries.map id := by
    apply List.map_congr_left
    intro entry hentry
    obtain ⟨raw, -, hraw⟩ := exists_of_mem_mapM hentries hentry
    exact transported_of_audioEntryFromJson hraw
  simp [ReviewManifest.transported, hfixed]

/-! ## The codec -/

/-- A manifest is read back without its notes' asset ids and with times in milliseconds, tombstones
as tombstones and live notes as live ones; reading back what has been read changes nothing; and the
manifest of a successful export names a file for exactly its live notes. -/
theorem ReviewManifest.codec :
    (∀ manifest : ReviewManifest, fromJson manifest.toJson = some manifest.transported ∧
      ∀ entry ∈ manifest.audioEntries,
        entry.transported.note.isTombstoned = entry.note.isTombstoned) ∧
    (∀ (json : Value) (manifest : ReviewManifest), fromJson json = some manifest →
      fromJson manifest.toJson = some manifest) ∧
    ∀ (env : Env) (d d' : Device) (pieceId : String) (authorId : Option String)
      (bundle : ExportedBundle),
      (exportBundle env pieceId authorId).exec d = (.ok bundle, d') →
        ∃ manifest, bundle.archive.manifest? = some manifest ∧
          ∀ entry ∈ manifest.audioEntries, entry.audioFile.isSome = !entry.note.isTombstoned := by
  refine ⟨fun manifest => ⟨manifest.fromJson_toJson, fun entry _ => ?_⟩,
    fun json manifest hjson => ?_, fun env d d' pieceId authorId bundle hexport => ?_⟩
  · exact entry.note.isTombstoned_transported
  · rw [fromJson_toJson, transported_of_fromJson hjson]
  · obtain ⟨piece, -, -, hpacked, hentries⟩ := exportBundle_ok hexport
    refine ⟨_, hpacked, fun entry hentry => ?_⟩
    obtain ⟨packed, hmem, rfl⟩ := List.mem_map.mp hentry
    rw [show packed.transported.note = packed.note.transported from rfl,
      AudioNote.isTombstoned_transported]
    exact hentries packed hmem

/-- A manifest as it was written before it had names. -/
def legacyManifest : Value :=
  .map [("version", .int 1), ("pieceId", .string "p"), ("pieceTitle", .string "Sonata"),
    ("authorId", .string "ann"), ("exportedAtMillis", .int 0), ("strokes", .array []),
    ("audioNotes", .array [])]

/-- The sonata with a recording of `ann` and a tombstone of hers. -/
def recordedSonata : Device := { sonataDevice with
  annotationCache := [("p", ⟨"p", [],
    [⟨"live", "ann", "take", 0, 1000, ⟨0, 0, 0, 1, 1⟩, noon, none⟩,
      ⟨"gone", "ann", "", 0, 1000, ⟨0, 0, 0, 1, 1⟩, noon, some noon⟩]⟩)]
  audioAssets := [("take", ⟨".m4a", .bytes [1]⟩)] }

/-- The legacy manifest is read, and read back as it is; of the two notes exported only the live one
has a file. -/
theorem ReviewManifest.codec_legacy :
    (∃ manifest, fromJson legacyManifest = some manifest ∧
      fromJson manifest.toJson = some manifest) ∧
    ∃ bundle d', (exportBundle (Env.quiet "ann" noon) "p" none).exec recordedSonata =
        (.ok bundle, d') ∧
      ∃ manifest, bundle.archive.manifest? = some manifest ∧
        ∀ entry ∈ manifest.audioEntries, entry.audioFile.isSome = !entry.note.isTombstoned := by
  constructor
  · have hjson : fromJson legacyManifest =
        some ⟨1, "p", "Sonata", "ann", none, 0, "", none, [], []⟩ := by decide +kernel
    exact ⟨_, hjson, codec.2.1 _ _ hjson⟩
  · have hexports : ((exportBundle (Env.quiet "ann" noon) "p" none).exec recordedSonata).1
        |>.toOption.isSome := by decide +kernel
    rcases hrun : (exportBundle (Env.quiet "ann" noon) "p" none).exec recordedSonata
      with ⟨_ | bundle, d'⟩
    · rw [hrun] at hexports
      cases hexports
    · exact ⟨bundle, d', rfl, codec.2.2 _ _ _ _ _ _ hrun⟩

end Duet
