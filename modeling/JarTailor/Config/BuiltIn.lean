import JarTailor.Config.Basic

/-!
# The built-in configuration

What is kept and changed of the Android framework when no other configuration is given.
-/

namespace JarTailor.Config

def delegating (className method : String) : ReplaceRule :=
  ⟨⟨className, method, none⟩, .delegate⟩

def builtIn : Config where
  derivedFrom := ["android.view.View", "android.app.Fragment"]
  includes := [
    "android.animation.*",
    "android.content.res.*",
    "android.graphics.*",
    "android.graphics.drawable.**",
    "android.os.*",
    "android.text.**",
    "android.util.*",
    "android.view.*",
    "android.widget.*",
    "com.android.internal.R**",
    "com.android.internal.util.*"]
  excludes := ["android.test.**", "org.kxml2.io.KXmlParser"]
  excludedFiles := ["META-INF/*.SF", "META-INF/*.RSA", "META-INF/*.DSA"]
  renames := [
    ⟨"android.view.SurfaceView", "android.view._Original_SurfaceView"⟩,
    ⟨"android.view.WindowManagerImpl", "android.view._Original_WindowManagerImpl"⟩,
    ⟨"android.webkit.WebView", "android.webkit._Original_WebView"⟩,
    ⟨"android.view.textservice.TextServicesManager",
      "android.view.textservice._Original_TextServicesManager"⟩]
  replacements := [
    delegating "android.view.View" "isInEditMode",
    delegating "android.os.Handler" "sendMessageAtTime",
    delegating "android.os.SystemClock" "uptimeMillis",
    delegating "android.os.SystemClock" "elapsedRealtime",
    delegating "android.view.Choreographer" "getRefreshRate"]
  delegatedNatives := [
    "android.graphics.Bitmap",
    "android.graphics.Canvas",
    "android.graphics.Matrix",
    "android.graphics.Paint",
    "android.graphics.Path",
    "android.os.SystemClock"]
  redirects := [
    ⟨⟨"java.lang.System", "arraycopy", some "([CI[CII)V"⟩,
      "com.android.tools.layoutlib.java.System_Delegate"⟩]
  promotedClasses := ["android.view.Choreographer$FrameDisplayEventReceiver"]
  promotedFields := ["android.view.Choreographer#mLastFrameTimeNanos"]

end JarTailor.Config
