import LibApta.Query.Parsed
import LibApta.Query.Published
import LibApta.Session.ReplayAgreement

/-!
# When range queries tell the truth

The results that a host can query come from a session or from the parser, and all of them are well
formed. So the conditions of the layers are exact for them.
-/

namespace LibApta

namespace Queryable

/-- What a host can query: a result that a session published along a run, or one that was parsed. -/
inductive Genuine : Queryable → Prop
  | published {s s' : Session} {calls : List Call} {result : Result}
      (hcreated : Session.Created s) (hrun : Session.run calls s = some s')
      (hresult : result ∈ s'.results) : Genuine result.queryable
  | parsed {sizes : Container.Sizes} {options : Option Container.ParseOptions}
      {buffer : Container.Buffer} {context next : Container.Context} {parsed : Container.Parsed}
      (hparse : Container.resultParse sizes options buffer.bytes context =
        ⟨.ok (), some parsed, next⟩) : Genuine parsed.data.queryable

theorem Genuine.wellFormed {result : Queryable} (h : result.Genuine) : result.WellFormed := by
  cases h with
  | published hcreated hrun hresult =>
      exact (Session.Presents.run hcreated hrun).results _ hresult
  | parsed hparse =>
      obtain ⟨parsed, next, input, header, spans, heq, haccepts, -⟩ :=
        Container.resultParse_ok (congrArg Container.Reply.status hparse)
      obtain rfl : _ = parsed := Option.some.inj (congrArg Container.Reply.resultOut (hparse.symm.trans heq))
      exact haccepts.queryable

/-- **What range queries say of coverage.** A query for a feature over a range tells the truth about
the published coverage exactly under the condition of the layer that answers it. For the detail tiles
the range must start in a tile if it meets one, and must meet no partial tile if the tiles contain it;
for the estimates the scope must contain and overlap the range just as the published segments do; the
bands, and the confidence without a tempo, are answered for where there is no overview. -/
theorem range_query_truthful (result : Queryable) (hgenuine : result.Genuine) (feature : Feature)
    (range : FrameRange) (hrange : range.firstFrame < range.endFrame) :
    TellsTruth (result.getFeatureState feature (some range)) (result.coverage feature) range ↔
      result.Truthful feature range :=
  tellsTruth_iff hgenuine.wellFormed feature hrange

end Queryable

namespace Session

open Queryable

/-- The calls that publish the second detail column alone. -/
def secondColumnCalls : List Call :=
  [plainCall (.pushPcm secondColumnBlock),
    plainCall (.process (fun _ _ => .wouldBlock) ⟨0, 0, 0⟩)]

/-- The newest result of a session that publishes the second detail column alone. -/
theorem secondColumn_published : ∃ result : Queryable, result.Genuine ∧
    Feature.waveformDetail ∈ result.available ∧ result.tiles = [⟨⟨256, 512⟩, statePart⟩] := by
  obtain ⟨s, hs⟩ : ∃ s, create detailConfig seriesLibm false plainPlatform = (.ok, some s) :=
    ⟨_, rfl⟩
  have hafter : ((create detailConfig seriesLibm false plainPlatform).2.bind
      (run secondColumnCalls)).map (fun s => s.results.head?.map fun result =>
        (decide (Feature.waveformDetail ∈ result.availableFeatures), result.queryable.tiles)) =
      some (some (true, [⟨⟨256, 512⟩, statePart⟩])) := by decide +kernel
  rw [hs] at hafter
  obtain ⟨s', hrun, hhead⟩ := Option.map_eq_some_iff.mp hafter
  obtain ⟨result, hresult, hfacts⟩ := Option.map_eq_some_iff.mp hhead
  obtain ⟨havailable, htiles⟩ := Prod.mk.inj hfacts
  exact ⟨result.queryable, .published ⟨_, _, _, _, hs⟩ hrun (List.mem_of_mem_head? hresult),
    of_decide_eq_true havailable, htiles⟩

/-- Past the first tile the query tells the truth. -/
theorem range_query_truthful_in_tile : ∃ result : Queryable, result.Genuine ∧
    TellsTruth (result.getFeatureState .waveformDetail (some ⟨300, 600⟩))
      (result.coverage .waveformDetail) ⟨300, 600⟩ := by
  obtain ⟨result, hgenuine, -, htiles⟩ := secondColumn_published
  refine ⟨result, hgenuine, ?_⟩
  refine (range_query_truthful result hgenuine .waveformDetail ⟨300, 600⟩ (by decide)).mpr ?_
  intro _
  rw [DetailTruthful, htiles]
  refine ⟨fun _ => ⟨⟨256, 512⟩, List.mem_singleton_self _, by decide⟩, fun hcovers => ?_⟩
  obtain ⟨range, hmem, hin⟩ := hcovers 550 (by decide) (by decide)
  rw [List.map_singleton, List.mem_singleton] at hmem
  exact absurd hin (by rw [hmem]; decide)

/-- A range that starts in front of the first tile and overlaps it is answered for as absent. -/
theorem range_query_misses_overlap : ∃ result : Queryable, result.Genuine ∧
    result.coverage .waveformDetail = [⟨256, 512⟩] ∧
    result.getFeatureState .waveformDetail (some ⟨0, 512⟩) =
      ⟨.notAvailable, stateAbsent, confidenceUnset⟩ ∧
    ¬ TellsTruth (result.getFeatureState .waveformDetail (some ⟨0, 512⟩))
      (result.coverage .waveformDetail) ⟨0, 512⟩ := by
  obtain ⟨result, hgenuine, havailable, htiles⟩ := secondColumn_published
  have hcoverage : result.coverage .waveformDetail = [⟨256, 512⟩] := by
    simp [coverage, havailable, htiles]
  have hanswer : result.getFeatureState .waveformDetail (some ⟨0, 512⟩) =
      ⟨.notAvailable, stateAbsent, confidenceUnset⟩ := by
    simp [getFeatureState, getFeatureStateS4, getFeatureStateDetail, detailGetState, havailable,
      htiles, detailSweep]
  refine ⟨result, hgenuine, hcoverage, hanswer, fun htruth => ?_⟩
  rw [hcoverage, hanswer] at htruth
  exact htruth.absent.mp ⟨rfl, rfl⟩
    ⟨256, by decide, by decide, ⟨256, 512⟩, List.mem_singleton_self _, by decide⟩

end Session

end LibApta
