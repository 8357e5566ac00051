import SourceMigration.Recipe.Basic

/-!
# SourceMigration — the appender recipe

Moves custom appenders from log4j to logback: the supertype becomes logback's appender base,
the hook that asks for a layout goes, closing becomes stopping or goes when it does nothing, and
events, layouts and the calls of their methods follow.
-/

namespace SourceMigration

namespace Appender

/-- The supertype of the appenders that are moved. -/
def skeleton : TypeName := ⟨"org.apache.log4j.AppenderSkeleton"⟩

/-- The supertype they are moved to. -/
def base : TypeName := ⟨"ch.qos.logback.core.AppenderBase"⟩

def legacyLayout : TypeName := ⟨"org.apache.log4j.Layout"⟩

def legacyEvent : TypeName := ⟨"org.apache.log4j.spi.LoggingEvent"⟩

def layout : TypeName := ⟨"ch.qos.logback.core.LayoutBase"⟩

def event : TypeName := ⟨"ch.qos.logback.classic.spi.ILoggingEvent"⟩

/-- The calls that format an event, whatever their arguments. -/
def formatCalls : MethodPattern :=
  ⟨legacyLayout.text ++ " format(..)", legacyLayout, "format", none⟩

/-- The passes that follow an exchanged supertype. Calls are renamed by the legacy layout, so
before the layout is changed. -/
def companions : List Pass :=
  [ .renameMethod formatCalls "doLayout",
    .changeType legacyEvent event,
    .changeType legacyLayout layout,
    .removeImport skeleton,
    .addImport base,
    .addImport event ]

/-- The appender recipe. -/
def recipe : Recipe where
  name := "log4j-appender-to-logback"
  title := "Migrate from Log4j appender"
  description := "Migrates custom Log4j appender components to \u0060logback-classic\u0060."
  gate := skeleton
  legacy := skeleton
  change := ⟨"AppenderBase<ILoggingEvent>", [base, event], companions⟩

end Appender

end SourceMigration
