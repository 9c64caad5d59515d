import ParleVision.Properties.Replay

namespace ParleVision.Properties

def boolProperty (name : String) (init : Option Bool) : Property :=
  ⟨name, .bool, init, .plain⟩

def intProperty (name : String) (init : Int) (setter : Setter .int) : Property :=
  ⟨name, .int, some init, setter⟩

def stringProperty (name : String) (init : String) (setter : Setter .string) : Property :=
  ⟨name, .string, some init, setter⟩

def enumProperty (name : String) (init : Enum) (setter : Setter .enum) : Property :=
  ⟨name, .enum, some init, setter⟩

def enumOf (items : List (String × Int)) : Enum := ⟨0, items.map fun p => ⟨p.1, p.2⟩⟩

def atLeast (lo : Int) : Setter .int := .guarded fun i => decide (lo ≤ i)

def byte : Setter .int := .guarded fun i => decide (0 ≤ i ∧ i ≤ 255)

def blobProducer : ElementType where
  className := "BlobProducer"
  properties := [intProperty "maxStep" 10 (atLeast 0), intProperty "numBlobs" 10 (atLeast 0)]

def blobDetector : ElementType where
  className := "plvblobtracker::BlobDetector"
  properties := [intProperty "minBlobSize" 0 (atLeast 0)]

def kinectThreshold : ElementType where
  className := "plvmskinect::KinectThreshold"
  properties := [intProperty "threshold" 0 .plain, intProperty "maxValue" 5000 .plain]

def helloWorldProcessor : ElementType where
  className := "HelloWorldProcessor"
  properties := [intProperty "someInt" 1337 .plain, boolProperty "someBool" (some true),
    stringProperty "someString" "hello" .plain]

def tcpServerProcessor : ElementType where
  className := "TCPServerProcessor"
  properties := [intProperty "port" 1337 .plain,
    boolProperty "convertCvMatDataToQImage" (some false), boolProperty "lossless" (some false),
    intProperty "maxFramesInQueue" 1 (atLeast 1), intProperty "maxFramesInFlight" 1 (atLeast 1)]

def tcpClientProducer : ElementType where
  className := "TCPClientProducer"
  properties := [intProperty "port" 1337 .plain, stringProperty "serverIP" "127.0.0.1" .plain,
    boolProperty "autoReconnect" (some false)]

/-- `Util::addDefaultBorderInterpolationTypes`, with the constants of OpenCV -/
def borderTypes : Enum :=
  enumOf [("default", 4), ("constant", 0), ("reflect", 2), ("reflect 101", 4),
    ("reflect 101 (2)", 4), ("replicate", 1), ("wrap", 3)]

def average : ElementType where
  className := "plvopencv::Average"
  properties := [intProperty "numFrames" 10 (atLeast 1)]

def backgroundSubtractor : ElementType where
  className := "plvopencv::BackgroundSubtractor"
  properties := [
    enumProperty "method" (enumOf [("gray", 0), ("color to gray", 1), ("color to color", 2)]) .plain,
    boolProperty "reset" (some true), intProperty "replacement" 255 byte,
    intProperty "threshold" 128 byte]

def cameraProducer : ElementType where
  className := "plvopencv::CameraProducer"
  properties := [intProperty "cameraId" 0 .plain, intProperty "width" 640 .plain,
    intProperty "height" 480 .plain]

def cropImage : ElementType where
  className := "plvopencv::CropImage"
  properties := [intProperty "x1" 0 (.clamped 0 none), intProperty "x2" 0 (.clamped 0 none),
    intProperty "y1" 0 (.clamped 0 none), intProperty "y2" 0 (.clamped 0 none)]

def delayImage : ElementType where
  className := "plvopencv::DelayImage"
  properties := [intProperty "steps" 5 (.clamped 0 (some 100))]

def dilateErode : ElementType where
  className := "plvopencv::DilateErode"
  properties := [intProperty "erosionIterations" 0 (atLeast 0),
    intProperty "dilationIterations" 0 (atLeast 0),
    enumProperty "order" (enumOf [("erode then delate", 0), ("delate then erode", 1)]) .plain]

/-- The constructor leaves `m_l2Gradient` as it is. -/
def edgeDetectorCanny : ElementType where
  className := "plvopencv::EdgeDetectorCanny"
  properties := [intProperty "apertureSize" 3 (.kernelSize 3 (some 7)),
    boolProperty "l2Gradient" none]

def edgeDetectorLaplace : ElementType where
  className := "plvopencv::EdgeDetectorLaplace"
  properties := [intProperty "apertureSize" 3 (.kernelSize 1 (some 7))]

abbrev sobelProperties : List Property :=
  [boolProperty "xOrder" (some true), boolProperty "yOrder" (some false),
    intProperty "kernelSize" 3 (.kernelSize 1 (some 7)), enumProperty "borderType" borderTypes .plain]

/-- `setXOrder` and `setYOrder` do not let both orders be false. -/
def sobelAccepts : (i : Fin 4) → ((j : Fin 4) → (sobelProperties.get j).kind.Value) →
    (sobelProperties.get i).kind.Value → Bool
  | 0, v, x => (x : Bool) || (v 1 : Bool)
  | 1, v, y => (y : Bool) || (v 0 : Bool)
  | _, _, _ => true

def edgeDetectorSobel : ElementType where
  className := "plvopencv::EdgeDetectorSobel"
  properties := sobelProperties
  accepts := sobelAccepts

/-- The last item has the name of an earlier one. -/
def exampleProcessor : ElementType where
  className := "plvopencv::ExampleProcessor"
  properties := [intProperty "someInt" 1337 .plain, boolProperty "someBool" (some true),
    stringProperty "someString" "hello" .plain,
    enumProperty "customEnum" ((enumOf [("Very Low", 0), ("Low", 1), ("High", 2),
      ("Very High", 5), ("High", 4)]).setSelected "Low") .plain]

def foregroundDetector : ElementType where
  className := "plvopencv::ForegroundDetector"
  properties := [enumProperty "method"
    (enumOf [("ACM MM2003", 0), ("ACM MM2003 simple", 0), ("CVPR 1999", 2)]) .plain]

def gaussianSmooth : ElementType where
  className := "plvopencv::GaussianSmooth"
  properties := [intProperty "kernelSizeWidth" 1 (.kernelSize 1 none),
    intProperty "kernelSizeHeight" 1 (.kernelSize 1 none),
    enumProperty "borderType" borderTypes .plain]

/-- The setter throws when the selected index has no item. -/
def imageColorConvert : ElementType where
  className := "plvopencv::ImageColorConvert"
  properties := [enumProperty "conversionType"
    (enumOf [("CV_RGB2GRAY", 7), ("CV_RGB2RGBA", 0), ("CV_RGB2BGR", 4)])
    (.guarded fun e => e.getSelectedItemName.isSome)]

def imageCornerHarris : ElementType where
  className := "plvopencv::ImageCornerHarris"
  properties := [intProperty "kernelSize" 3 (.kernelSize 1 (some 7)),
    intProperty "blockSize" 3 (.clamped 1 none), enumProperty "borderType" borderTypes .plain]

def imageDirectoryProducer : ElementType where
  className := "plvopencv::ImageDirectoryProducer"
  properties := [stringProperty "directory" "" .directory]

def imageFlip : ElementType where
  className := "plvopencv::ImageFlip"
  properties := [enumProperty "method" (enumOf [("flip around x and y-axis", -1),
    ("flip around x-axis", 0), ("flip around y-axis", 1)]) .plain]

/-- `QString::length`, which counts UTF-16 units -/
def qLength (s : String) : Nat :=
  (s.toList.map fun c => if c.toNat > 0xFFFF then 2 else 1).sum

def endsWithIgnoringCase (s ending : String) : Bool :=
  (ending.toList.map Char.toLower).isSuffixOf (s.toList.map Char.toLower)

def validateExtension (filename : String) : Bool :=
  endsWithIgnoringCase filename ".sr" ||
  decide (5 ≤ qLength filename) && [".bmp", ".dib", ".jpg", ".jpe", ".png", ".pbm", ".pgm",
    ".ppm", ".ras", ".tif"].any (endsWithIgnoringCase filename) ||
  decide (6 ≤ qLength filename) && [".jpeg", ".tiff"].any (endsWithIgnoringCase filename)

def imageProducer : ElementType where
  className := "plvopencv::ImageProducer"
  properties := [stringProperty "filename" ""
      (.guarded fun name => decide (4 ≤ qLength name) && validateExtension name),
    stringProperty "directory" "" .directory]

def imageThreshold : ElementType where
  className := "plvopencv::ImageThreshold"
  properties := [enumProperty "method" (enumOf [("CV_THRESH_BINARY", 0),
    ("CV_THRESH_BINARY_INV", 1), ("CV_THRESH_TRUNC", 2), ("CV_THRESH_TOZERO", 3),
    ("CV_THRESH_TOZERO_INV", 4)]) .plain]

/-- The constructor leaves `m_negative` as it is. -/
def mask : ElementType where
  className := "plvopencv::Mask"
  properties := [boolProperty "negative" none]

/-- The default directory is that of the platform. -/
def saveImageToFile (defaultDir : String) : ElementType where
  className := "plvopencv::SaveImageToFile"
  properties := [stringProperty "directory" defaultDir .unlessInitialised,
    enumProperty "fileFormat" (enumOf [("Windows Bitmap - *.bmp", 0), ("JPEG Files - *.jpg", 1),
      ("Portable Network Graphics - *.png", 2), ("Portable Image Format - *.pbm", 3),
      ("Sun Rasters - *.sr", 4), ("TIFF Files - *.tiff", 5)]) .plain]

def snapshot : ElementType where
  className := "plvopencv::Snapshot"
  properties := [boolProperty "makeSnapshot" (some true), boolProperty "keepSending" (some false)]

def stitch : ElementType where
  className := "plvopencv::Stitch"
  properties := [intProperty "destinationWidth" 1280 (.clamped 0 (some 3840)),
    intProperty "destinationHeight" 960 (.clamped 0 (some 2160)),
    intProperty "in0X" 0 .plain, intProperty "in0Y" 0 .plain,
    intProperty "in1X" 0 .plain, intProperty "in1Y" 0 .plain,
    intProperty "in2X" 0 .plain, intProperty "in2Y" 0 .plain,
    intProperty "in3X" 0 .plain, intProperty "in3Y" 0 .plain, boolProperty "blend" (some false)]

def trigger : ElementType where
  className := "plvopencv::Trigger"
  properties := [boolProperty "activate" (some false), boolProperty "continuous" (some false),
    intProperty "count" 1 (atLeast 1)]

/-- Any file name of four characters will do. -/
def videoProducer : ElementType where
  className := "plvopencv::VideoProducer"
  properties := [stringProperty "filename" "" (.guarded fun name => decide (4 ≤ qLength name)),
    stringProperty "directory" "" .directory]

def violaJonesFaceDetector : ElementType where
  className := "plvopencv::ViolaJonesFaceDetector"
  properties := [intProperty "minNeighbours" 3 (atLeast 1),
    boolProperty "useCannyPruning" (some true), intProperty "minWidth" 20 (atLeast 0),
    intProperty "minHeight" 20 (atLeast 0), stringProperty "haarCascadeFile"
      "C:/OpenCV-2.1.0/data/haarcascades/haarcascade_frontalface_alt.xml" .plain]

/-- The types that have no such property. -/
def withoutProperties (className : String) : ElementType := ⟨className, [], fun _ _ _ => true⟩

/-- The registered types, but for EdgeDetectorSobel. -/
def shipped (defaultDir : String) : List ElementType :=
  [blobProducer, blobDetector, kinectThreshold, helloWorldProcessor, tcpServerProcessor,
    tcpClientProducer, average, backgroundSubtractor, cameraProducer, cropImage, delayImage,
    dilateErode, edgeDetectorCanny, edgeDetectorLaplace, exampleProcessor, foregroundDetector,
    gaussianSmooth, imageColorConvert, imageCornerHarris, imageDirectoryProducer, imageFlip,
    imageProducer, imageThreshold, mask, saveImageToFile defaultDir, snapshot, stitch, trigger,
    videoProducer, violaJonesFaceDetector] ++
  ["TestProducer", "plvblobtracker::BlobTracker", "plvblobtracker::VPBlobToStringConverter",
    "plvmskinect::MSKinectProducer", "plvopencv::Add", "plvopencv::Sub", "plvopencv::Diff",
    "plvopencv::PixelSum", "plvopencv::CropSubImage", "plvopencv::Xor", "plvopencv::Multiply",
    "plvopencv::Split", "plvopencv::RunningAverage"].map withoutProperties

theorem shipped_wellFormed (defaultDir : String) :
    ∀ T ∈ shipped defaultDir, T.wellFormed = true ∧ ∀ i v x, T.accepts i v x = true := by
  intro T hT
  simp only [shipped, List.map_cons, List.map_nil, List.cons_append, List.nil_append,
    List.mem_cons, List.not_mem_nil, or_false] at hT
  casesm* _ ∨ _ <;> subst T <;> exact ⟨rfl, fun _ _ _ => rfl⟩

theorem edgeDetectorSobel_wellFormed : edgeDetectorSobel.wellFormed = true := by decide

section Sobel

abbrev xOrderIndex : edgeDetectorSobel.Index := ⟨0, by decide⟩

abbrev yOrderIndex : edgeDetectorSobel.Index := ⟨1, by decide⟩

def getXOrder (v : edgeDetectorSobel.Valuation) : Bool := v xOrderIndex

def getYOrder (v : edgeDetectorSobel.Valuation) : Bool := v yOrderIndex

variable {env : Env} {v fresh : edgeDetectorSobel.Valuation}

/-- `xOrder` comes first and meets a fresh `yOrder`, which is false. -/
theorem sobel_restoresAt_xOrder (hfresh : edgeDetectorSobel.Constructed fresh) :
    ElementType.RestoresAt env v fresh xOrderIndex ↔ getXOrder v = true := by
  have hx : getXOrder fresh = true := hfresh xOrderIndex true rfl
  have hy : getYOrder fresh = false := hfresh yOrderIndex false rfl
  have hset : ∀ x : Bool, getXOrder (edgeDetectorSobel.set env xOrderIndex
      (ElementType.upTo v fresh 0) x) = true := by
    intro x
    have hacc : edgeDetectorSobel.accepts xOrderIndex (ElementType.upTo v fresh 0) x =
        (x || getYOrder fresh) := rfl
    refine (edgeDetectorSobel.set_self env xOrderIndex _ x).trans ?_
    rw [hacc, hy, Bool.or_false]
    cases x with
    | true => rfl
    | false => exact hx
  constructor
  · rintro ⟨text, -, hres⟩
    exact hres.symm.trans (hset _)
  · intro hv
    refine ⟨"true", ?_, (hset _).trans hv.symm⟩
    change some (if getXOrder v then "true" else "false") = some "true"
    rw [hv]
    rfl

/-- Only `xOrder` meets a setter that refuses it. -/
theorem sobel_accepts (hx : getXOrder v = true) {i : edgeDetectorSobel.Index}
    (hi : i ≠ xOrderIndex) (y : (edgeDetectorSobel.property i).kind.Value) :
    edgeDetectorSobel.accepts i (ElementType.upTo v fresh i) y = true := by
  have hyacc : ∀ y : Bool, edgeDetectorSobel.accepts yOrderIndex
      (ElementType.upTo v fresh yOrderIndex) y = true := by
    intro y
    have hacc : edgeDetectorSobel.accepts yOrderIndex (ElementType.upTo v fresh yOrderIndex) y =
        (y || getXOrder v) := rfl
    rw [hacc, hx, Bool.or_true]
  match i, y with
  | ⟨0, _⟩, _ => exact absurd rfl hi
  | ⟨1, _⟩, y => exact hyacc y
  | ⟨2, _⟩, _ => rfl
  | ⟨3, _⟩, _ => rfl

theorem sobel_restore_iff (hnew : env.initialised = false)
    (hv : edgeDetectorSobel.Reachable v) (hfresh : edgeDetectorSobel.Constructed fresh) :
    (∃ texts, edgeDetectorSobel.serialize v = some texts ∧
      edgeDetectorSobel.restore env texts fresh = v) ↔
      getXOrder v = true ∧
        ∀ i, (edgeDetectorSobel.property i).Restored env (fresh i) (v i) := by
  have hT := edgeDetectorSobel_wellFormed
  rw [ElementType.restore_serialize_iff (ElementType.name_injective hT)]
  constructor
  · intro h
    have hx := (sobel_restoresAt_xOrder hfresh).mp (h xOrderIndex)
    refine ⟨hx, fun i => ?_⟩
    by_cases hi : i = xOrderIndex
    · subst hi
      exact ⟨trivial, trivial⟩
    · exact (ElementType.restoresAt_iff hT hnew hv hfresh (sobel_accepts hx hi)).mp (h i)
  · rintro ⟨hx, h⟩ i
    by_cases hi : i = xOrderIndex
    · subst hi
      exact (sobel_restoresAt_xOrder hfresh).mpr hx
    · exact (ElementType.restoresAt_iff hT hnew hv hfresh (sobel_accepts hx hi)).mpr (h i)

end Sobel

def freshEnv (dirExists : String → Bool) : Env := ⟨dirExists, false⟩

/-- The saved properties of an element are restored exactly when its enums select the first
item of their name among the constructor's, its directories are the constructor's or exist,
and, for EdgeDetectorSobel, `xOrder` is true. -/
theorem restore_serialize (defaultDir : String) (dirExists : String → Bool) :
    (∀ T ∈ shipped defaultDir, ∀ v fresh, T.Reachable v → T.Constructed fresh →
      ((∃ texts, T.serialize v = some texts ∧ T.restore (freshEnv dirExists) texts fresh = v) ↔
        ∀ i, (T.property i).Restored (freshEnv dirExists) (fresh i) (v i))) ∧
    (∀ v fresh, edgeDetectorSobel.Reachable v → edgeDetectorSobel.Constructed fresh →
      ((∃ texts, edgeDetectorSobel.serialize v = some texts ∧
          edgeDetectorSobel.restore (freshEnv dirExists) texts fresh = v) ↔
        getXOrder v = true ∧
          ∀ i, (edgeDetectorSobel.property i).Restored (freshEnv dirExists) (fresh i) (v i))) := by
  constructor
  · intro T hT v fresh hv hfresh
    obtain ⟨hwf, hacc⟩ := shipped_wellFormed defaultDir T hT
    exact ElementType.restore_iff hwf hacc rfl hv hfresh
  · intro v fresh hv hfresh
    exact sobel_restore_iff rfl hv hfresh

def sobelFresh : edgeDetectorSobel.Valuation
  | ⟨0, _⟩ => true
  | ⟨1, _⟩ => false
  | ⟨2, _⟩ => (3 : Int)
  | ⟨3, _⟩ => borderTypes

theorem sobelFresh_constructed : edgeDetectorSobel.Constructed sobelFresh
  | ⟨0, _⟩, _, h => Option.some.inj h
  | ⟨1, _⟩, _, h => Option.some.inj h
  | ⟨2, _⟩, _, h => Option.some.inj h
  | ⟨3, _⟩, _, h => Option.some.inj h

/-- Both orders are restored. -/
theorem restore_serialize_bothOrders :
    ∃ texts, edgeDetectorSobel.serialize
        (edgeDetectorSobel.set (freshEnv fun _ => false) yOrderIndex sobelFresh true) = some texts ∧
      edgeDetectorSobel.restore (freshEnv fun _ => false) texts sobelFresh =
        edgeDetectorSobel.set (freshEnv fun _ => false) yOrderIndex sobelFresh true := by
  have hv : edgeDetectorSobel.Reachable
      (edgeDetectorSobel.set (freshEnv fun _ => false) yOrderIndex sobelFresh true) :=
    .set _ _ _ _ (.constructed _ sobelFresh_constructed)
  apply ((restore_serialize "/tmp/" fun _ => false).2 _ _ hv sobelFresh_constructed).mpr
  refine ⟨rfl, fun i => ?_⟩
  match i with
  | ⟨0, _⟩ => exact ⟨trivial, trivial⟩
  | ⟨1, _⟩ => exact ⟨trivial, trivial⟩
  | ⟨2, _⟩ => exact ⟨trivial, trivial⟩
  | ⟨3, _⟩ => exact ⟨⟨rfl, rfl⟩, trivial⟩

def exampleFresh : exampleProcessor.Valuation
  | ⟨0, _⟩ => (1337 : Int)
  | ⟨1, _⟩ => true
  | ⟨2, _⟩ => "hello"
  | ⟨3, _⟩ => (enumOf [("Very Low", 0), ("Low", 1), ("High", 2), ("Very High", 5),
      ("High", 4)]).setSelected "Low"

theorem exampleFresh_constructed : exampleProcessor.Constructed exampleFresh
  | ⟨0, _⟩, _, h => Option.some.inj h
  | ⟨1, _⟩, _, h => Option.some.inj h
  | ⟨2, _⟩, _, h => Option.some.inj h
  | ⟨3, _⟩, _, h => Option.some.inj h

/-- `setCustomEnum` with the last item, the second one called "High". -/
def exampleHigh : exampleProcessor.Valuation :=
  exampleProcessor.set (freshEnv fun _ => false) ⟨3, by decide⟩ exampleFresh
    (⟨4, (enumOf [("Very Low", 0), ("Low", 1), ("High", 2), ("Very High", 5),
      ("High", 4)]).m_items⟩ : Enum)

/-- `setYOrder( true )`, then `setXOrder( false )`. -/
def sobelYOnly : edgeDetectorSobel.Valuation :=
  edgeDetectorSobel.set (freshEnv fun _ => false) xOrderIndex
    (edgeDetectorSobel.set (freshEnv fun _ => false) yOrderIndex sobelFresh true) false

/-- Neither the y order alone nor the second "High" comes back. -/
theorem restore_serialize_fails :
    (edgeDetectorSobel.Reachable sobelYOnly ∧ edgeDetectorSobel.Constructed sobelFresh ∧
      ¬ ∃ texts, edgeDetectorSobel.serialize sobelYOnly = some texts ∧
        edgeDetectorSobel.restore (freshEnv fun _ => false) texts sobelFresh = sobelYOnly) ∧
    (exampleProcessor.Reachable exampleHigh ∧ exampleProcessor.Constructed exampleFresh ∧
      ¬ ∃ texts, exampleProcessor.serialize exampleHigh = some texts ∧
        exampleProcessor.restore (freshEnv fun _ => false) texts exampleFresh = exampleHigh) := by
  have hy : edgeDetectorSobel.Reachable sobelYOnly :=
    .set _ _ _ _ (.set _ _ _ _ (.constructed _ sobelFresh_constructed))
  have hhigh : exampleProcessor.Reachable exampleHigh :=
    .set _ _ _ _ (.constructed _ exampleFresh_constructed)
  refine ⟨⟨hy, sobelFresh_constructed, ?_⟩, ⟨hhigh, exampleFresh_constructed, ?_⟩⟩
  · intro h
    obtain ⟨hx, -⟩ := (sobel_restore_iff rfl hy sobelFresh_constructed).mp h
    cases hx
  · intro h
    obtain ⟨hwf, hacc⟩ := shipped_wellFormed "/tmp/" exampleProcessor (by simp [shipped])
    have hall := (ElementType.restore_iff hwf hacc rfl hhigh exampleFresh_constructed).mp h
    have hfirst := (hall ⟨3, by decide⟩).1.2
    cases hfirst

end ParleVision.Properties
