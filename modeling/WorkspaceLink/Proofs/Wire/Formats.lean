import WorkspaceLink.Proofs.Wire.Findings
import WorkspaceLink.Proofs.Wire.Symbols
import WorkspaceLink.Proofs.Wire.Watching

/-!
All formats are stable: what was read, from an object or from an array of fields, with fields left
out or fields that are not known, is written in a form that is read as the same value. So is every
value that can be sent.
-/

namespace WorkspaceLink

open Json Json.Reader

/-- Whatever the formats read is read back from what is written for it, and every value that can be
sent is read. -/
structure StableFormats : Prop where
  /-- A tree comes back as a tree and a flat list as a flat list. -/
  response : StableFormat SymbolResponse.reader SymbolResponse.toJson SymbolResponse.Fits
  symbol : StableFormat DocumentSymbol.reader DocumentSymbol.toJson DocumentSymbol.Fits
  information :
    StableFormat SymbolInformation.reader SymbolInformation.toJson SymbolInformation.Fits
  location : StableFormat Location.reader Location.toJson Location.Fits
  diagnostic : StableFormat Diagnostic.reader Diagnostic.toJson Diagnostic.Fits
  hover : StableFormat Hover.reader Hover.toJson Hover.Fits
  registration : StableFormat WatchRegistration.reader WatchRegistration.toJson fun _ => True
  settings : StableFormat Settings.reader Settings.toJson Settings.Fits
  /-- Each number of a kind is read and written again, whether the kind is known or not. -/
  kinds : ∀ levels n, n < 256 → ∃ kind : SymbolKind,
    SymbolKind.reader levels (.nat n) = .ok kind ∧ kind.Fits ∧ kind.toJson = .nat n
  /-- Of each number of a mask the three lowest bits are. -/
  masks : ∀ levels n, n < 256 → ∃ mask : WatchMask,
    WatchMask.reader levels (.nat n) = .ok mask ∧ mask.toJson = .nat (n % 8)

theorem formats_stable : StableFormats where
  response := SymbolResponse.stableFormat
  symbol := DocumentSymbol.stableFormat
  information := SymbolInformation.stableFormat
  location := Location.stableFormat
  diagnostic := Diagnostic.stableFormat
  hover := Hover.stableFormat
  registration := WatchRegistration.stableFormat
  settings := Settings.stableFormat
  kinds levels n hn := by
    have hread : SymbolKind.reader levels (.nat n) = .ok (.ofNumber n) := by
      rw [SymbolKind.reader, natBelow_nat hn]
      rfl
    refine ⟨_, hread, SymbolKind.yields levels _ _ hread, ?_⟩
    rw [SymbolKind.toJson, SymbolKind.toNumber_ofNumber]
  masks levels n hn := by
    refine ⟨.ofBits n, ?_, ?_⟩
    · rw [WatchMask.reader, natBelow_nat hn]
      rfl
    · rw [WatchMask.toJson, WatchMask.bits_ofBits]

/-- A flat list of one symbol, of a kind that is not known and in no container. -/
def oddSymbols : SymbolResponse :=
  .flat [⟨"main", .unknown 200, ⟨⟨"file:///a.go"⟩, ⟨⟨0, 0⟩, ⟨lastCoord, 1⟩⟩⟩, none⟩]

/-- A registration of a pattern without a base, for what is created or deleted. -/
def oddRegistration : WatchRegistration :=
  ⟨⟨none, "*.go"⟩, some ⟨true, false, true⟩⟩

/-- The flat list comes back as it is, and so does the registration, once the bits of its mask that
mean nothing are dropped. -/
theorem odd_readBack :
    oddSymbols.Fits ∧ SymbolResponse.reader nestingLimit oddSymbols.toJson = .ok oddSymbols ∧
      WatchRegistration.reader nestingLimit (.list [.list [.null, .string "*.go"], .nat 13]) =
        .ok oddRegistration ∧
      WatchRegistration.reader nestingLimit oddRegistration.toJson = .ok oddRegistration := by
  have hfits : oddSymbols.Fits := ⟨List.cons_ne_nil _ _, List.forall_mem_singleton.mpr (by decide)⟩
  have hread : WatchRegistration.reader nestingLimit
      (.list [.list [.null, .string "*.go"], .nat 13]) = .ok oddRegistration := rfl
  exact ⟨hfits, formats_stable.response.readsBack _ hfits _ (by decide), hread,
    formats_stable.registration.stable _ _ _ hread _ (by decide)⟩

end WorkspaceLink
