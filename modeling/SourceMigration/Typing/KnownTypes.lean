import SourceMigration.Typing.Classpath

/-!
# SourceMigration — types known from the start

The types that are known without being told: those of the language's own package, and of
the two logging frameworks the types that custom appenders build on.
-/

namespace SourceMigration

/-- Types of the package whose types need no import. -/
def languageTypes : List String :=
  ["AutoCloseable", "Boolean", "Character", "Class", "Deprecated", "Double", "Enum",
    "Error", "Exception", "Float", "FunctionalInterface", "IllegalArgumentException",
    "IllegalStateException", "Integer", "Iterable", "Long", "Math", "Number", "Object",
    "Override", "Runnable", "RuntimeException", "String", "StringBuffer", "StringBuilder",
    "SuppressWarnings", "System", "Thread", "Throwable"]

/-- A stub with names in plain text. -/
private def known (name : String) (supertype : Option String := none)
    (fields : List (String × String) := []) (methods : List (String × Option String) := []) : Stub :=
  ⟨⟨name⟩, supertype.map TypeName.mk, fields.map fun (f, t) => (f, ⟨t⟩),
    methods.map fun (m, t) => (m, t.map TypeName.mk)⟩

/-- The package whose types need no import. -/
def languagePackage : String := "java.lang"

/-- Types of the framework that appenders move away from. -/
def legacyStubs : List Stub :=
  [ known "org.apache.log4j.Appender",
    known "org.apache.log4j.AppenderSkeleton" none
      [("layout", "org.apache.log4j.Layout"), ("name", "java.lang.String"),
        ("threshold", "org.apache.log4j.Priority"),
        ("errorHandler", "org.apache.log4j.spi.ErrorHandler")]
      [("activateOptions", none), ("append", none), ("close", none), ("doAppend", none),
        ("getErrorHandler", some "org.apache.log4j.spi.ErrorHandler"),
        ("getLayout", some "org.apache.log4j.Layout"), ("getName", some "java.lang.String"),
        ("getThreshold", some "org.apache.log4j.Priority"), ("isAsSevereAsThreshold", none),
        ("requiresLayout", none), ("setLayout", none), ("setName", none), ("setThreshold", none)],
    known "org.apache.log4j.WriterAppender" (some "org.apache.log4j.AppenderSkeleton"),
    known "org.apache.log4j.ConsoleAppender" (some "org.apache.log4j.WriterAppender"),
    known "org.apache.log4j.FileAppender" (some "org.apache.log4j.WriterAppender"),
    known "org.apache.log4j.Layout" none
      [("LINE_SEP", "java.lang.String")]
      [("activateOptions", none), ("format", some "java.lang.String"),
        ("getContentType", some "java.lang.String"), ("getFooter", some "java.lang.String"),
        ("getHeader", some "java.lang.String"), ("ignoresThrowable", none)],
    known "org.apache.log4j.PatternLayout" (some "org.apache.log4j.Layout")
      []
      [("getConversionPattern", some "java.lang.String"), ("setConversionPattern", none)],
    known "org.apache.log4j.EnhancedPatternLayout" (some "org.apache.log4j.Layout"),
    known "org.apache.log4j.SimpleLayout" (some "org.apache.log4j.Layout"),
    known "org.apache.log4j.HTMLLayout" (some "org.apache.log4j.Layout"),
    known "org.apache.log4j.Priority",
    known "org.apache.log4j.Level" (some "org.apache.log4j.Priority"),
    known "org.apache.log4j.Logger",
    known "org.apache.log4j.LogManager",
    known "org.apache.log4j.spi.LoggingEvent" none
      []
      [("getLevel", some "org.apache.log4j.Level"), ("getLoggerName", some "java.lang.String"),
        ("getMessage", some "java.lang.Object"), ("getRenderedMessage", some "java.lang.String"),
        ("getThreadName", some "java.lang.String"), ("getTimeStamp", none)],
    known "org.apache.log4j.spi.ErrorHandler",
    known "org.apache.log4j.spi.Filter"]

/-- Types of the framework that appenders move to. -/
def targetStubs : List Stub :=
  [ known "ch.qos.logback.core.AppenderBase" none
      []
      [("append", none), ("getName", some "java.lang.String"), ("start", none), ("stop", none)],
    known "ch.qos.logback.core.UnsynchronizedAppenderBase",
    known "ch.qos.logback.core.Layout",
    known "ch.qos.logback.core.LayoutBase" none
      []
      [("doLayout", some "java.lang.String"), ("getContentType", some "java.lang.String")],
    known "ch.qos.logback.classic.spi.ILoggingEvent" none
      []
      [("getFormattedMessage", some "java.lang.String"),
        ("getLevel", some "ch.qos.logback.classic.Level"),
        ("getLoggerName", some "java.lang.String"), ("getMessage", some "java.lang.String"),
        ("getThreadName", some "java.lang.String"), ("getTimeStamp", none)],
    known "ch.qos.logback.classic.Level",
    known "ch.qos.logback.classic.PatternLayout" (some "ch.qos.logback.core.LayoutBase")]

/-- All types known from the start. -/
def defaultStubs : List Stub :=
  languageTypes.map (fun t => known (languagePackage ++ "." ++ t)) ++ legacyStubs ++ targetStubs

end SourceMigration
