/-
  LeapSyncFfh.Official.FrameHistory — the histories of the official wrapper's
  `ControllerImplementation` (officialWrapper/LeapImplementationC++.h).

  Frames, images and point mappings arrive as messages of their own, in any order, and a
  frame is given the images and the points of its id whenever the later of the two arrives.
  For this the controller keeps the last 60 of each. `onImage` scans the frames newest
  first and stops at an older one; `onPointMappingChange` does the same, and buffers only a
  mapping that found no frame; `onTracking` looks the other way, and throws away the mapping
  it used with all older ones.

  All of it runs on the polling thread; the accessors read what is there. Here is what they
  see: while the frame ids increase, `frame(history)` has the images of its frame exactly if
  they came after it or were one of the last 60 before (`frame_images`). The same holds of
  the points, where the ids of the mappings increase too (`frame_mapPoints`): nothing that
  is thrown away would have been used. Both are the window join of `Lib.Join`.

  The notification of the listeners, the buffers behind the images, and the growing of the
  buffer for `LeapGetPointMapping` are left out.
-/

import Mathlib
import LeapSyncFfh.Leap.LeapC
import LeapSyncFfh.Lib.Join

namespace LeapSyncFfh

open Join

variable {F : Type}

/-! ## The messages -/

inductive eLeapImageType where
  | eLeapImageType_UNKNOWN
  | eLeapImageType_Default
  | eLeapImageType_Raw
  deriving DecidableEq, Repr

/-- Of `LEAP_IMAGE` the field that `images()` and `rawImages()` tell the images apart by. -/
structure LEAP_IMAGE where
  type : eLeapImageType

structure LEAP_IMAGE_EVENT where
  info : LEAP_FRAME_HEADER
  image : Fin 2 → LEAP_IMAGE

/-- `pPoints` and `pIDs` are the arrays of exactly `nPoints` the mapping points to. -/
structure LEAP_POINT_MAPPING (F : Type) where
  frame_id : Int
  timestamp : Int
  nPoints : Nat
  pPoints : List (LEAP_VECTOR F)
  pIDs : List Nat
  sized : pPoints.length = nPoints ∧ pIDs.length = nPoints

/-- A polled message; a `pointMappingChange` carries what `LeapGetPointMapping` then
    answers, `none` if it fails. -/
inductive Message (F : Type) where
  | tracking (tracking_event : LEAP_TRACKING_EVENT F)
  | image (image_event : LEAP_IMAGE_EVENT)
  | pointMappingChange (pointMapping : Option (LEAP_POINT_MAPPING F))
  /-- One that no history depends on. -/
  | other

/-! ## The objects -/

structure ImageImplementation where
  m_image_event : LEAP_IMAGE_EVENT
  m_imageId : Fin 2

namespace ImageImplementation

def sequenceId (image : ImageImplementation) : Int := image.m_image_event.info.frame_id

end ImageImplementation

structure MapPoint (F : Type) where
  id : Nat
  point : LEAP_VECTOR F

structure FrameImplementation (F : Type) where
  m_tracking_event : LEAP_TRACKING_EVENT F
  m_images : List ImageImplementation := []
  m_mapPoints : List (MapPoint F) := []

namespace FrameImplementation

def id (frame : FrameImplementation F) : Int := frame.m_tracking_event.info.frame_id

def setImages (frame : FrameImplementation F) (images : List ImageImplementation) : FrameImplementation F :=
  { frame with m_images := images }

/-- The points of a mapping; `~0U` of them count as none. -/
def mapPointsOf (pointMapping : LEAP_POINT_MAPPING F) : List (MapPoint F) :=
  if 0 < pointMapping.nPoints ∧ pointMapping.nPoints < 2 ^ 32 - 1 then
    List.zipWith MapPoint.mk pointMapping.pIDs pointMapping.pPoints
  else []

def setMapPoints (frame : FrameImplementation F) (pointMapping : LEAP_POINT_MAPPING F) : FrameImplementation F :=
  if frame.id ≠ pointMapping.frame_id then frame else { frame with m_mapPoints := mapPointsOf pointMapping }

end FrameImplementation

structure ControllerImplementation (F : Type) where
  m_frames : List (FrameImplementation F) := []
  m_images : List (List ImageImplementation) := []
  m_pointMappingBuffers : List (LEAP_POINT_MAPPING F) := []

namespace ControllerImplementation

def DEFAULT_FRAME_HISTORY_SIZE : Nat := 60

/-- `emplace_front`, and `pop_back` where it has grown too long. -/
def emplace {α : Type} (x : α) (deque : List α) : List α :=
  if DEFAULT_FRAME_HISTORY_SIZE < (x :: deque).length then (x :: deque).dropLast else x :: deque

/-- `sequenceId() == frame_id` for the first image of the vector, if it is not empty. -/
def imagesOfFrame (frame_id : Int) : List ImageImplementation → Bool
  | [] => false
  | image :: _ => frame_id = image.sequenceId

/-- The images that are there for a new frame. -/
def findImages (c : ControllerImplementation F) (impl : FrameImplementation F) : FrameImplementation F :=
  match c.m_images.find? (imagesOfFrame impl.id) with
  | some images => impl.setImages images
  | none => impl

/-- The map points that are there for a new frame. -/
def findMapPoints (c : ControllerImplementation F) (impl : FrameImplementation F) : FrameImplementation F :=
  match c.m_pointMappingBuffers.find? fun pointMapping => impl.id = pointMapping.frame_id with
  | some pointMapping => impl.setMapPoints pointMapping
  | none => impl

def onTracking (c : ControllerImplementation F) (tracking_event : LEAP_TRACKING_EVENT F) : ControllerImplementation F :=
  let impl := c.findMapPoints (c.findImages { m_tracking_event := tracking_event })
  { c with
    -- the mapping that was used is erased with all older ones
    m_pointMappingBuffers := c.m_pointMappingBuffers.takeWhile fun pointMapping =>
      tracking_event.info.frame_id ≠ pointMapping.frame_id
    m_frames := emplace impl c.m_frames }

def onImage (c : ControllerImplementation F) (image_event : LEAP_IMAGE_EVENT) : ControllerImplementation F :=
  let images : List ImageImplementation := [⟨image_event, 0⟩, ⟨image_event, 1⟩]
  let image_id := image_event.info.frame_id
  { c with
    m_images := emplace images c.m_images
    m_frames := (update? FrameImplementation.id image_id (·.setImages images) c.m_frames).getD c.m_frames }

def onPointMappingChange (c : ControllerImplementation F) :
    Option (LEAP_POINT_MAPPING F) → ControllerImplementation F
  | none => c
  | some pointMapping =>
    if pointMapping.nPoints = 0 then c
    else
      match update? FrameImplementation.id pointMapping.frame_id (·.setMapPoints pointMapping) c.m_frames with
      | some m_frames => { c with m_frames := m_frames }
      | none => { c with m_pointMappingBuffers := emplace pointMapping c.m_pointMappingBuffers }

/-- One round of the polling thread. -/
def poll (c : ControllerImplementation F) : Message F → ControllerImplementation F
  | .tracking tracking_event => c.onTracking tracking_event
  | .image image_event => c.onImage image_event
  | .pointMappingChange pointMapping => c.onPointMappingChange pointMapping
  | .other => c

def run (msgs : List (Message F)) : ControllerImplementation F := msgs.foldl poll {}

/-- `frame(history)`; `none` is the invalid frame. -/
def frame (c : ControllerImplementation F) (history : Int) : Option (FrameImplementation F) :=
  if 0 ≤ history ∧ history < c.m_frames.length then c.m_frames[history.toNat]? else none

/-! ## What the handlers do to a history -/

theorem emplace_eq {α : Type} (x : α) {deque : List α} (h : deque.length ≤ DEFAULT_FRAME_HISTORY_SIZE) :
    emplace x deque = (x :: deque).take DEFAULT_FRAME_HISTORY_SIZE := by
  unfold emplace
  split
  · rename_i hlt
    have hlen : (x :: deque).length = DEFAULT_FRAME_HISTORY_SIZE + 1 := by
      rw [List.length_cons] at hlt ⊢
      omega
    rw [List.dropLast_eq_take, hlen]
    rfl
  · rename_i hle
    exact (List.take_of_length_le (not_lt.mp hle)).symm

/-- The pair of images that `onImage` makes of an event. -/
def both (image_event : LEAP_IMAGE_EVENT) : List ImageImplementation := [⟨image_event, 0⟩, ⟨image_event, 1⟩]

def imagesOf : Option LEAP_IMAGE_EVENT → List ImageImplementation
  | some image_event => both image_event
  | none => []

def pointsOf : Option (LEAP_POINT_MAPPING F) → List (MapPoint F)
  | some pointMapping => FrameImplementation.mapPointsOf pointMapping
  | none => []

/-! ## The two streams of a join -/

def trackingOf : Message F → Option (LEAP_TRACKING_EVENT F)
  | .tracking tracking_event => some tracking_event
  | _ => none

def imageOf : Message F → Option LEAP_IMAGE_EVENT
  | .image image_event => some image_event
  | _ => none

/-- The mapping of a change that has points. -/
def mappingOf : Message F → Option (LEAP_POINT_MAPPING F)
  | .pointMappingChange (some pointMapping) => if pointMapping.nPoints = 0 then none else some pointMapping
  | _ => none

def trackings (msgs : List (Message F)) : List (LEAP_TRACKING_EVENT F) := msgs.filterMap trackingOf

def images (msgs : List (Message F)) : List LEAP_IMAGE_EVENT := msgs.filterMap imageOf

def mappings (msgs : List (Message F)) : List (LEAP_POINT_MAPPING F) := msgs.filterMap mappingOf

/-- The frame ids, as the keys. -/
def frameId (e : LEAP_TRACKING_EVENT F) : Int := e.info.frame_id

def imageId (e : LEAP_IMAGE_EVENT) : Int := e.info.frame_id

section Stream

variable {β : Type} (right : Message F → Option β)

/-- A message on one of the two streams. -/
def sideOf (m : Message F) : Option (LEAP_TRACKING_EVENT F ⊕ β) :=
  match trackingOf m with
  | some e => some (.inl e)
  | none => (right m).map .inr

def stream (msgs : List (Message F)) : List (LEAP_TRACKING_EVENT F ⊕ β) := msgs.filterMap (sideOf right)

theorem stream_lefts (msgs : List (Message F)) : lefts (stream right msgs) = trackings msgs := by
  unfold lefts stream trackings
  rw [List.filterMap_filterMap]
  congr 1
  funext m
  unfold sideOf
  cases trackingOf m with
  | some e => rfl
  | none => cases right m <;> rfl

theorem stream_rights (hright : ∀ e, right (.tracking e) = none) (msgs : List (Message F)) :
    rights (stream right msgs) = msgs.filterMap right := by
  unfold rights stream
  rw [List.filterMap_filterMap]
  congr 1
  funext m
  cases m with
  | tracking e => exact (hright e).symm
  | _ => unfold sideOf trackingOf; simp only []; cases right _ <;> rfl

/-- A frame of the history, from the plain join. -/
theorem frame_at {δ : Type} {kr : β → Int} {c : ControllerImplementation F} {pre post : List (Message F)}
    {e : LEAP_TRACKING_EVENT F} (g : FrameImplementation F → LEAP_TRACKING_EVENT F × δ) (h : Option β → δ)
    (hframes : c.m_frames.map g =
      ((streams frameId kr DEFAULT_FRAME_HISTORY_SIZE (stream right (pre ++ .tracking e :: post))).pairs.take
        DEFAULT_FRAME_HISTORY_SIZE).map fun p => (p.1, h p.2))
    (hrecent : (trackings post).length < DEFAULT_FRAME_HISTORY_SIZE) :
    ∃ f, c.frame (trackings post).length = some f ∧
      g f = (e, h (partner frameId kr DEFAULT_FRAME_HISTORY_SIZE (stream right pre) (stream right post) e)) := by
  have hsplit : stream right (pre ++ .tracking e :: post) = stream right pre ++ .inl e :: stream right post := by
    rw [stream, List.filterMap_append]
    rfl
  have hget : (streams frameId kr DEFAULT_FRAME_HISTORY_SIZE
      (stream right pre ++ .inl e :: stream right post)).pairs[(lefts (stream right post)).length]? =
        some (e, partner frameId kr DEFAULT_FRAME_HISTORY_SIZE (stream right pre) (stream right post) e) :=
    streams_get _ _ e
  rw [stream_lefts] at hget
  have hat := congrArg (fun fs => fs[(trackings post).length]?) hframes
  simp only [List.getElem?_map, List.getElem?_take_of_lt hrecent, hsplit, hget] at hat
  obtain ⟨f, hf, hfe⟩ := Option.map_eq_some_iff.mp hat
  refine ⟨f, ?_, hfe⟩
  have hlt : (trackings post).length < c.m_frames.length := (List.getElem?_eq_some_iff.mp hf).1
  rw [frame, if_pos ⟨Int.natCast_nonneg _, by exact_mod_cast hlt⟩]
  exact hf

end Stream

/-! ## The images -/

def withImages (f : FrameImplementation F) : LEAP_TRACKING_EVENT F × List ImageImplementation :=
  (f.m_tracking_event, f.m_images)

/-- The controller's frames and images are the window join of the two streams. -/
structure ImagesJoined (c : ControllerImplementation F) (w : Window (LEAP_TRACKING_EVENT F) LEAP_IMAGE_EVENT) : Prop where
  frames : c.m_frames.map withImages = w.pairs.map fun p => (p.1, imagesOf p.2)
  images : c.m_images = w.rights.map both
  frames_le : c.m_frames.length ≤ DEFAULT_FRAME_HISTORY_SIZE
  images_le : c.m_images.length ≤ DEFAULT_FRAME_HISTORY_SIZE

theorem emplace_le {α : Type} (x : α) {deque : List α} (h : deque.length ≤ DEFAULT_FRAME_HISTORY_SIZE) :
    (emplace x deque).length ≤ DEFAULT_FRAME_HISTORY_SIZE := by
  rw [emplace_eq x h, List.length_take]
  exact Nat.min_le_left ..

theorem setMapPoints_event (f : FrameImplementation F) (m : LEAP_POINT_MAPPING F) :
    (f.setMapPoints m).m_tracking_event = f.m_tracking_event ∧ (f.setMapPoints m).m_images = f.m_images := by
  unfold FrameImplementation.setMapPoints
  split <;> exact ⟨rfl, rfl⟩

theorem findImages_spec (c : ControllerImplementation F) (f : FrameImplementation F) :
    (c.findImages f).m_tracking_event = f.m_tracking_event ∧ (c.findImages f).m_mapPoints = f.m_mapPoints ∧
      (c.findImages f).m_images = (c.m_images.find? (imagesOfFrame f.id)).getD f.m_images := by
  unfold findImages
  split
  · rename_i images hi
    rw [hi]
    exact ⟨rfl, rfl, rfl⟩
  · rename_i hi
    rw [hi]
    exact ⟨rfl, rfl, rfl⟩

theorem findMapPoints_spec (c : ControllerImplementation F) {f : FrameImplementation F} (h : f.m_mapPoints = []) :
    (c.findMapPoints f).m_tracking_event = f.m_tracking_event ∧ (c.findMapPoints f).m_images = f.m_images ∧
      (c.findMapPoints f).m_mapPoints =
        pointsOf (c.m_pointMappingBuffers.find? fun pointMapping => f.id = pointMapping.frame_id) := by
  unfold findMapPoints
  split
  · rename_i m hm
    have hid : f.id = m.frame_id := by simpa using List.find?_some hm
    rw [hm, FrameImplementation.setMapPoints, if_neg (not_not.mpr hid)]
    exact ⟨rfl, rfl, rfl⟩
  · rename_i hm
    rw [hm]
    exact ⟨rfl, rfl, h⟩

/-- The new frame has what was there of its id. -/
theorem onTracking_frames (c : ControllerImplementation F) (e : LEAP_TRACKING_EVENT F) :
    ∃ f, (c.onTracking e).m_frames = emplace f c.m_frames ∧ f.m_tracking_event = e ∧
      f.m_images = (c.m_images.find? (imagesOfFrame e.info.frame_id)).getD [] ∧
      f.m_mapPoints = pointsOf (c.m_pointMappingBuffers.find? fun pointMapping => e.info.frame_id = pointMapping.frame_id) := by
  obtain ⟨hevent, hpoints, hi⟩ := findImages_spec c { m_tracking_event := e }
  obtain ⟨hevent', hi', hpoints'⟩ := findMapPoints_spec c hpoints
  have hid : (c.findImages { m_tracking_event := e }).id = e.info.frame_id := by rw [FrameImplementation.id, hevent]
  refine ⟨_, rfl, hevent'.trans hevent, hi'.trans hi, ?_⟩
  rw [hpoints', hid]

theorem find_images (bs : List LEAP_IMAGE_EVENT) (e : LEAP_TRACKING_EVENT F) :
    ((bs.map both).find? (imagesOfFrame e.info.frame_id)).getD [] = imagesOf (meet frameId imageId e bs) := by
  have hsame : (imagesOfFrame e.info.frame_id ∘ both) = fun b => decide (imageId b = frameId e) := by
    funext b
    exact decide_eq_decide.mpr eq_comm
  rw [List.find?_map, hsame, meet]
  cases bs.find? fun b => decide (imageId b = frameId e) <;> rfl

theorem onTracking_images {c : ControllerImplementation F} {w : Window (LEAP_TRACKING_EVENT F) LEAP_IMAGE_EVENT}
    (h : ImagesJoined c w) (e : LEAP_TRACKING_EVENT F) :
    ImagesJoined (c.onTracking e) (w.keep frameId imageId DEFAULT_FRAME_HISTORY_SIZE (.inl e)) := by
  obtain ⟨f, hf, hevent, hi, -⟩ := onTracking_frames c e
  refine ⟨?_, h.images, by rw [hf]; exact emplace_le f h.frames_le, h.images_le⟩
  show _ = List.map _ (List.take _ ((e, meet frameId imageId e w.rights) :: w.pairs))
  rw [hf, emplace_eq f h.frames_le, List.map_take, List.map_take, List.map_cons, List.map_cons, h.frames, withImages, hevent, hi, h.images,
    find_images]

theorem onImage_images {c : ControllerImplementation F} {w : Window (LEAP_TRACKING_EVENT F) LEAP_IMAGE_EVENT}
    (h : ImagesJoined c w) (b : LEAP_IMAGE_EVENT) :
    ImagesJoined (c.onImage b) (w.keep frameId imageId DEFAULT_FRAME_HISTORY_SIZE (.inr b)) := by
  have hframes : (update? FrameImplementation.id b.info.frame_id (·.setImages (both b)) c.m_frames).map (List.map withImages) =
      update? (fun p => frameId p.1) b.info.frame_id (fun p => (p.1, both b)) (c.m_frames.map withImages) :=
    update?_map FrameImplementation.id (fun p => frameId p.1) (·.setImages (both b)) (fun p => (p.1, both b)) withImages
      (fun _ => rfl) (fun _ _ => rfl) c.m_frames
  have hpairs : (setAt frameId imageId b w.pairs).map (List.map fun p => (p.1, imagesOf p.2)) =
      update? (fun p => frameId p.1) b.info.frame_id (fun p => (p.1, both b)) (w.pairs.map fun p => (p.1, imagesOf p.2)) := by
    unfold setAt
    refine update?_map (K := Int) _ _ _ _ _ ?_ ?_ w.pairs
    · exact fun _ => rfl
    · exact fun _ _ => rfl
  rw [h.frames, ← hpairs] at hframes
  refine ⟨?_, ?_, ?_, emplace_le _ h.images_le⟩
  · show ((update? FrameImplementation.id b.info.frame_id (·.setImages (both b)) c.m_frames).getD c.m_frames).map withImages =
      ((setAt frameId imageId b w.pairs).getD w.pairs).map fun p => (p.1, imagesOf p.2)
    rw [← Option.getD_map (List.map withImages), hframes, h.frames, Option.getD_map]
  · show emplace (both b) c.m_images = List.map both (List.take _ (b :: w.rights))
    rw [emplace_eq _ h.images_le, List.map_take, List.map_cons, h.images]
  · show ((update? FrameImplementation.id b.info.frame_id (·.setImages (both b)) c.m_frames).getD c.m_frames).length ≤ _
    cases hu : update? FrameImplementation.id b.info.frame_id (·.setImages (both b)) c.m_frames with
    | none => exact h.frames_le
    | some fs => exact (update?_length hu).trans_le h.frames_le

theorem onPointMappingChange_images {c : ControllerImplementation F}
    {w : Window (LEAP_TRACKING_EVENT F) LEAP_IMAGE_EVENT} (h : ImagesJoined c w) (m : Option (LEAP_POINT_MAPPING F)) :
    ImagesJoined (c.onPointMappingChange m) w := by
  cases m with
  | none => exact h
  | some m =>
    rw [onPointMappingChange]
    split
    · exact h
    · split
      · rename_i fs hfs
        have hsame : ∀ f : FrameImplementation F, withImages (f.setMapPoints m) = withImages f := fun f =>
          Prod.ext (setMapPoints_event f m).1 (setMapPoints_event f m).2
        exact ⟨(update?_unseen hsame hfs).trans h.frames, h.images, (update?_length hfs).trans_le h.frames_le, h.images_le⟩
      · exact ⟨h.frames, h.images, h.frames_le, h.images_le⟩

theorem run_images (msgs : List (Message F)) :
    ImagesJoined (run msgs) (keeping frameId imageId DEFAULT_FRAME_HISTORY_SIZE (stream imageOf msgs)) := by
  induction msgs using List.reverseRecOn with
  | nil => exact ⟨rfl, rfl, Nat.zero_le _, Nat.zero_le _⟩
  | append_singleton msgs m ih =>
    have hrun : run (msgs ++ [m]) = (run msgs).poll m := List.foldl_append
    have hstream : keeping frameId imageId DEFAULT_FRAME_HISTORY_SIZE (stream imageOf (msgs ++ [m])) =
        (stream imageOf [m]).foldl (Window.keep frameId imageId DEFAULT_FRAME_HISTORY_SIZE)
          (keeping frameId imageId DEFAULT_FRAME_HISTORY_SIZE (stream imageOf msgs)) := by
      rw [stream, List.filterMap_append, keeping, List.foldl_append]
      rfl
    rw [hrun, hstream]
    cases m with
    | tracking e => exact onTracking_images ih e
    | image b => exact onImage_images ih b
    | pointMappingChange m => exact onPointMappingChange_images ih m
    | other => exact ih

/-- While the frame ids increase, each of the last 60 frames has the images of its id: the
    last that came after it, or else the last among the 60 images before it. -/
theorem frame_images {pre post : List (Message F)} {e : LEAP_TRACKING_EVENT F}
    (hids : (trackings (pre ++ .tracking e :: post)).Pairwise fun e e' => e.info.frame_id < e'.info.frame_id)
    (hrecent : (trackings post).length < DEFAULT_FRAME_HISTORY_SIZE) :
    ∃ f, (run (pre ++ .tracking e :: post)).frame (trackings post).length = some f ∧ f.m_tracking_event = e ∧
      f.m_images = imagesOf (((images post).reverse.find? fun b => b.info.frame_id = e.info.frame_id).or
        (((images pre).reverse.take DEFAULT_FRAME_HISTORY_SIZE).find? fun b => b.info.frame_id = e.info.frame_id)) := by
  obtain ⟨hframes, -, -, -⟩ := run_images (pre ++ .tracking e :: post)
  rw [keeping_eq (by rw [stream_lefts]; exact hids)] at hframes
  obtain ⟨f, hf, hfe⟩ := frame_at imageOf withImages imagesOf hframes hrecent
  obtain ⟨hevent, hi⟩ := Prod.mk.inj hfe
  refine ⟨f, hf, hevent, ?_⟩
  rw [hi, partner, stream_rights imageOf fun _ => rfl, stream_rights imageOf fun _ => rfl]
  rfl

/-- A frame without hands, and an image event, of one id. -/
def emptyFrame (id : Int) : LEAP_TRACKING_EVENT Nat := ⟨⟨id, 0⟩, id, 0, [], 0, rfl⟩

def infrared (id : Int) : LEAP_IMAGE_EVENT := ⟨⟨id, 0⟩, fun _ => ⟨.eLeapImageType_Default⟩⟩

/-- Images before their frame, and a frame after it. -/
theorem frame_images_early : ∃ f,
    (run ([.image (infrared 7)] ++ .tracking (emptyFrame 7) :: [.tracking (emptyFrame 8), .image (infrared 8)])).frame 1 =
      some f ∧ f.m_tracking_event = emptyFrame 7 ∧ f.m_images = both (infrared 7) :=
  frame_images (by decide) (by decide)

/-! ## The map points -/

def withMapPoints (f : FrameImplementation F) : LEAP_TRACKING_EVENT F × List (MapPoint F) :=
  (f.m_tracking_event, f.m_mapPoints)

/-- The controller's frames and buffered mappings are the consuming join. -/
structure PointsJoined (c : ControllerImplementation F) (w : Window (LEAP_TRACKING_EVENT F) (LEAP_POINT_MAPPING F)) :
    Prop where
  frames : c.m_frames.map withMapPoints = w.pairs.map fun p => (p.1, pointsOf p.2)
  buffers : c.m_pointMappingBuffers = w.rights
  frames_le : c.m_frames.length ≤ DEFAULT_FRAME_HISTORY_SIZE
  buffers_le : c.m_pointMappingBuffers.length ≤ DEFAULT_FRAME_HISTORY_SIZE

section Points

variable {c : ControllerImplementation F} {w : Window (LEAP_TRACKING_EVENT F) (LEAP_POINT_MAPPING F)}

theorem onTracking_points (h : PointsJoined c w) (e : LEAP_TRACKING_EVENT F) :
    PointsJoined (c.onTracking e) (w.consume frameId LEAP_POINT_MAPPING.frame_id DEFAULT_FRAME_HISTORY_SIZE (.inl e)) := by
  obtain ⟨f, hf, hevent, -, hp⟩ := onTracking_frames c e
  have hmeet : (c.m_pointMappingBuffers.find? fun m => e.info.frame_id = m.frame_id) =
      meet frameId LEAP_POINT_MAPPING.frame_id e w.rights := by
    rw [h.buffers, meet]
    congr 1
    funext m
    exact decide_eq_decide.mpr eq_comm
  refine ⟨?_, ?_, by rw [hf]; exact emplace_le f h.frames_le, (List.takeWhile_sublist _).length_le.trans h.buffers_le⟩
  · show _ = List.map _ (List.take _ ((e, meet frameId LEAP_POINT_MAPPING.frame_id e w.rights) :: w.pairs))
    rw [hf, emplace_eq f h.frames_le, List.map_take, List.map_take, List.map_cons, List.map_cons, h.frames, withMapPoints,
      hevent, hp, hmeet]
  · show c.m_pointMappingBuffers.takeWhile _ = w.rights.takeWhile _
    rw [h.buffers]
    congr 1
    funext m
    exact decide_eq_decide.mpr ne_comm

theorem onImage_points (h : PointsJoined c w) (b : LEAP_IMAGE_EVENT) : PointsJoined (c.onImage b) w := by
  have hsame : ∀ f : FrameImplementation F, withMapPoints (f.setImages (both b)) = withMapPoints f := fun _ => rfl
  have hframes : (c.onImage b).m_frames =
      (update? FrameImplementation.id b.info.frame_id (·.setImages (both b)) c.m_frames).getD c.m_frames := rfl
  cases hu : update? FrameImplementation.id b.info.frame_id (·.setImages (both b)) c.m_frames with
  | none =>
    rw [hu, Option.getD_none] at hframes
    exact ⟨by rw [hframes]; exact h.frames, h.buffers, by rw [hframes]; exact h.frames_le, h.buffers_le⟩
  | some fs =>
    rw [hu, Option.getD_some] at hframes
    exact ⟨by rw [hframes]; exact (update?_unseen hsame hu).trans h.frames, h.buffers,
      by rw [hframes]; exact (update?_length hu).trans_le h.frames_le, h.buffers_le⟩

theorem onPointMappingChange_points (h : PointsJoined c w) (m : Option (LEAP_POINT_MAPPING F)) :
    PointsJoined (c.onPointMappingChange m) ((stream mappingOf [.pointMappingChange m]).foldl
      (Window.consume frameId LEAP_POINT_MAPPING.frame_id DEFAULT_FRAME_HISTORY_SIZE) w) := by
  cases m with
  | none => exact h
  | some m =>
    rw [onPointMappingChange]
    by_cases hn : m.nPoints = 0
    · have hnone : stream mappingOf [Message.pointMappingChange (some m)] = [] := by
        simp [stream, sideOf, trackingOf, mappingOf, hn]
      rw [if_pos hn, hnone]
      exact h
    · have hone : stream mappingOf [Message.pointMappingChange (some m)] = [.inr m] := by
        simp [stream, sideOf, trackingOf, mappingOf, hn]
      rw [if_neg hn, hone]
      show PointsJoined _ (w.consume frameId LEAP_POINT_MAPPING.frame_id DEFAULT_FRAME_HISTORY_SIZE (.inr m))
      have hset : ∀ f : FrameImplementation F, m.frame_id = f.id →
          withMapPoints (f.setMapPoints m) = ((withMapPoints f).1, FrameImplementation.mapPointsOf m) := by
        intro f hf
        rw [FrameImplementation.setMapPoints, if_neg (not_not.mpr hf.symm)]
        rfl
      have hscan : (update? FrameImplementation.id m.frame_id (·.setMapPoints m) c.m_frames).map (List.map withMapPoints) =
          (setAt frameId LEAP_POINT_MAPPING.frame_id m w.pairs).map (List.map fun p => (p.1, pointsOf p.2)) := by
        rw [update?_map FrameImplementation.id (fun p => frameId p.1) (·.setMapPoints m)
          (fun p => (p.1, FrameImplementation.mapPointsOf m)) withMapPoints (fun _ => rfl) hset, h.frames]
        refine (update?_map (K := Int) _ _ _ _ _ ?_ ?_ w.pairs).symm
        · exact fun _ => rfl
        · exact fun _ _ => rfl
      cases hu : update? FrameImplementation.id m.frame_id (·.setMapPoints m) c.m_frames with
      | some fs =>
        rw [hu] at hscan
        obtain ⟨ps, hps, hfs⟩ := Option.map_eq_some_iff.mp hscan.symm
        simp only [Window.consume, hps]
        exact ⟨hfs.symm, h.buffers, (update?_length hu).trans_le h.frames_le, h.buffers_le⟩
      | none =>
        rw [hu] at hscan
        have hps := Option.map_eq_none_iff.mp hscan.symm
        simp only [Window.consume, hps]
        refine ⟨h.frames, ?_, h.frames_le, emplace_le m h.buffers_le⟩
        show emplace m c.m_pointMappingBuffers = _
        rw [emplace_eq m h.buffers_le, h.buffers]

theorem run_points (msgs : List (Message F)) :
    PointsJoined (run msgs)
      (consuming frameId LEAP_POINT_MAPPING.frame_id DEFAULT_FRAME_HISTORY_SIZE (stream mappingOf msgs)) := by
  induction msgs using List.reverseRecOn with
  | nil => exact ⟨rfl, rfl, Nat.zero_le _, Nat.zero_le _⟩
  | append_singleton msgs m ih =>
    have hrun : run (msgs ++ [m]) = (run msgs).poll m := List.foldl_append
    have hstream : consuming frameId LEAP_POINT_MAPPING.frame_id DEFAULT_FRAME_HISTORY_SIZE (stream mappingOf (msgs ++ [m])) =
        (stream mappingOf [m]).foldl (Window.consume frameId LEAP_POINT_MAPPING.frame_id DEFAULT_FRAME_HISTORY_SIZE)
          (consuming frameId LEAP_POINT_MAPPING.frame_id DEFAULT_FRAME_HISTORY_SIZE (stream mappingOf msgs)) := by
      rw [stream, List.filterMap_append, consuming, List.foldl_append]
      rfl
    rw [hrun, hstream]
    cases m with
    | tracking e => exact onTracking_points ih e
    | image b => exact onImage_points ih b
    | pointMappingChange m => exact onPointMappingChange_points ih m
    | other => exact ih

end Points

/-- While the ids of the frames and of the mappings increase, each of the last 60 frames has
    the map points of its id: that came after it, or were in one of the 60 mappings before. -/
theorem frame_mapPoints {pre post : List (Message F)} {e : LEAP_TRACKING_EVENT F}
    (hids : (trackings (pre ++ .tracking e :: post)).Pairwise fun e e' => e.info.frame_id < e'.info.frame_id)
    (hmaps : (mappings (pre ++ .tracking e :: post)).Pairwise fun m m' => m.frame_id < m'.frame_id)
    (hrecent : (trackings post).length < DEFAULT_FRAME_HISTORY_SIZE) :
    ∃ f, (run (pre ++ .tracking e :: post)).frame (trackings post).length = some f ∧ f.m_tracking_event = e ∧
      f.m_mapPoints = pointsOf (((mappings post).reverse.find? fun m => m.frame_id = e.info.frame_id).or
        (((mappings pre).reverse.take DEFAULT_FRAME_HISTORY_SIZE).find? fun m => m.frame_id = e.info.frame_id)) := by
  obtain ⟨hframes, -, -, -⟩ := run_points (pre ++ .tracking e :: post)
  rw [consuming_eq (by rw [stream_lefts]; exact hids) (by rw [stream_rights mappingOf fun _ => rfl]; exact hmaps)] at hframes
  obtain ⟨f, hf, hfe⟩ := frame_at mappingOf withMapPoints pointsOf hframes hrecent
  obtain ⟨hevent, hp⟩ := Prod.mk.inj hfe
  refine ⟨f, hf, hevent, ?_⟩
  rw [hp, partner, stream_rights mappingOf fun _ => rfl, stream_rights mappingOf fun _ => rfl]
  rfl

/-- One point of frame `id`. -/
def onePoint (id : Int) : LEAP_POINT_MAPPING Nat := ⟨id, 0, 1, [⟨1, 2, 3⟩], [5], rfl, rfl⟩

/-- The mapping of frame 7 is buffered, then one of a frame that was dropped. -/
theorem frame_mapPoints_buffered : ∃ f,
    (run ([.pointMappingChange (some (onePoint 7)), .pointMappingChange (some (onePoint 8))] ++
      .tracking (emptyFrame 7) :: [.tracking (emptyFrame 9)])).frame 1 = some f ∧
    f.m_tracking_event = emptyFrame 7 ∧ f.m_mapPoints = [⟨5, ⟨1, 2, 3⟩⟩] :=
  frame_mapPoints (by decide) (by decide) (by decide)

end ControllerImplementation

end LeapSyncFfh
