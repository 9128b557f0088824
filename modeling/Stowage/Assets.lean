/-! The texts that come with the program, in the order of their names, and the filling in of
templates: a value takes the place of its key wherever that stands between double braces behind a
point. -/
namespace Stowage

structure Asset where
  name : String
  text : String
deriving DecidableEq

def dashboardsText : List String := [
  "apiVersion: 1",
  "",
  "providers:",
  "  - name: default",
  "    orgId: 1",
  "    folder: ''",
  "    type: file",
  "    disableDeletion: false",
  "    updateIntervalSeconds: 30",
  "    allowUiUpdates: true",
  "    options:",
  "      path: /var/lib/grafana/dashboards",
  "      foldersFromFilesStructure: true"]

def promText : List String := [
  "apiVersion: 1",
  "",
  "datasources:",
  "  - name: Prometheus",
  "    type: prometheus",
  "    access: proxy",
  "    url: \x7b\x7b.PromEndpoint\x7d\x7d",
  "    isDefault: true",
  "    editable: false"]

def nodeExporterText : List String := [
  "\x7b",
  "  \"title\": \"Node Exporter\",",
  "  \"uid\": \"avspkg-node-exporter\",",
  "  \"schemaVersion\": 38,",
  "  \"version\": 1,",
  "  \"refresh\": \"30s\",",
  "  \"time\": \x7b \"from\": \"now-6h\", \"to\": \"now\" \x7d,",
  "  \"panels\": [",
  "    \x7b",
  "      \"id\": 1,",
  "      \"type\": \"timeseries\",",
  "      \"title\": \"CPU usage\",",
  "      \"gridPos\": \x7b \"h\": 8, \"w\": 12, \"x\": 0, \"y\": 0 \x7d,",
  "      \"targets\": [",
  "        \x7b",
  "          \"expr\": \"100 - (avg by (instance) (rate(node_cpu_seconds_total\x7bmode=\\\"idle\\\"\x7d[5m])) * 100)\",",
  "          \"legendFormat\": \"\x7b\x7binstance\x7d\x7d\"",
  "        \x7d",
  "      ]",
  "    \x7d,",
  "    \x7b",
  "      \"id\": 2,",
  "      \"type\": \"timeseries\",",
  "      \"title\": \"Memory usage\",",
  "      \"gridPos\": \x7b \"h\": 8, \"w\": 12, \"x\": 12, \"y\": 0 \x7d,",
  "      \"targets\": [",
  "        \x7b",
  "          \"expr\": \"node_memory_MemTotal_bytes - node_memory_MemAvailable_bytes\",",
  "          \"legendFormat\": \"\x7b\x7binstance\x7d\x7d\"",
  "        \x7d",
  "      ]",
  "    \x7d,",
  "    \x7b",
  "      \"id\": 3,",
  "      \"type\": \"timeseries\",",
  "      \"title\": \"Disk usage\",",
  "      \"gridPos\": \x7b \"h\": 8, \"w\": 24, \"x\": 0, \"y\": 8 \x7d,",
  "      \"targets\": [",
  "        \x7b",
  "          \"expr\": \"1 - node_filesystem_avail_bytes\x7bfstype!=\\\"tmpfs\\\"\x7d / node_filesystem_size_bytes\x7bfstype!=\\\"tmpfs\\\"\x7d\",",
  "          \"legendFormat\": \"\x7b\x7bmountpoint\x7d\x7d\"",
  "        \x7d",
  "      ]",
  "    \x7d",
  "  ]",
  "\x7d"]

def prometheusText : List String := [
  "global:",
  "  scrape_interval: 15s",
  "  evaluation_interval: 15s",
  "",
  "scrape_configs:",
  "  - job_name: node_exporter",
  "    static_configs:",
  "      - targets: ['\x7b\x7b.NodeExporterEndpoint\x7d\x7d']"]

def textOfLines (lines : List String) : String := String.join (lines.map (· ++ "\n"))

def assets : List Asset := [
  ⟨"grafana/config/dashboards.yml", textOfLines dashboardsText⟩,
  ⟨"grafana/config/prom.yml", textOfLines promText⟩,
  ⟨"grafana/dashboards/node_exporter.json", textOfLines nodeExporterText⟩,
  ⟨"prometheus/prometheus.yml", textOfLines prometheusText⟩]

def asset? (name : String) : Option String := (assets.find? fun a => a.name == name).map Asset.text

namespace Template

def placeholder (key : String) : List Char :=
  ['\x7b', '\x7b', '.'] ++ key.toList ++ ['\x7d', '\x7d']

def substitute (pattern value : List Char) : Nat → List Char → List Char
  | _, [] => []
  | skip + 1, _ :: cs => substitute pattern value skip cs
  | 0, c :: cs =>
    if pattern.isPrefixOf (c :: cs) then value ++ substitute pattern value (pattern.length - 1) cs
    else c :: substitute pattern value 0 cs

/-- The values are put in one after another, so that a later key may stand in an earlier value. -/
def render (template : String) (values : List (String × String)) : String :=
  String.ofList (values.foldl (fun cs (key, value) =>
    substitute (placeholder key) value.toList 0 cs) template.toList)

end Template
end Stowage
